import LatexCore.TexIndex.Layout
import Mathlib.Data.List.TakeDrop

/-! # Printed package databases

A record is printed as its fields in any order, with unknown lines and file sections in
between, and the records stand between blank lines. Each item is read from whatever
section the one before it left, so the reader returns exactly the printed records.
-/
namespace LatexCore.TexIndex
open Core Foundation Std

/-! ## Records -/

/-- A part of a printed record: a field, a file section or anything else. -/
inductive Item
  | field (key : TlpdbKey) (value : List Char)
  | files (key : TlpdbKey) (header : List Char) (paths : List (List Char))
  | unknown (line : List Char) (continued : List (List Char))

namespace Item

def lines : Item → List (List Char)
  | field key value => [key.text ++ ' ' :: value]
  | files key header paths => (key.text ++ header) :: paths.map (' ' :: ·)
  | unknown line continued => line :: continued.map (' ' :: ·)

def WellFormed : Item → Prop
  | field key _ => key ≠ .runfiles ∧ key ≠ .binfiles
  | files key header _ => (key = .runfiles ∨ key = .binfiles) ∧ (header = [] ∨ header.head? = some ' ')
  | unknown line _ => line ≠ [] ∧ line.head? ≠ some ' ' ∧ TlpdbKey.parse? (keyValue line).1 = none

instance (item : Item) : Decidable item.WellFormed :=
  match item with
  | field _ _ => inferInstanceAs (Decidable (_ ∧ _))
  | files _ _ _ => inferInstanceAs (Decidable (_ ∧ _))
  | unknown _ _ => inferInstanceAs (Decidable (_ ∧ _))

def value (key : TlpdbKey) : Item → Option (List Char)
  | field k value => if k = key then some value else none
  | _ => none

def paths (key : TlpdbKey) : Item → List (List Char)
  | files k _ paths => if k = key then paths else []
  | _ => []

end Item

/-- The items print the record: its fields in any order, with anything else in between. -/
structure Prints (items : List Item) (record : TlpdbPackageRecord) : Prop where
  wellFormed : ∀ item ∈ items, item.WellFormed
  name : items.filterMap (Item.value .name) = [record.name]
  category : items.filterMap (Item.value .category) = [record.category]
  revision : items.filterMap (Item.value .revision) = [Nat.toDigits 10 record.revision]
  catalogueVersion : items.filterMap (Item.value .catalogueVersion) = record.catalogueVersion.toList
  catalogueLicense : items.filterMap (Item.value .catalogueLicense) = record.catalogueLicense.toList
  runfiles : items.flatMap (Item.paths .runfiles) = record.runfiles
  binfiles : items.flatMap (Item.paths .binfiles) = record.binfiles

structure TlpdbPackageRecord.Valid (record : TlpdbPackageRecord) : Prop where
  named : record.name ≠ []
  categorized : record.category ≠ []
  revision : record.revision < 2 ^ 64
  paths : ∀ path ∈ record.runfiles ++ record.binfiles, RelativePath path

/-- The records, in their order, with any blank lines around them. -/
def Printed (records : List TlpdbPackageRecord) (text : List Char) : Prop :=
  ∃ (written : List (List Char)) (groups : List (List Item)), Written written text ∧
    paragraphs written = groups.map (fun items => items.flatMap Item.lines) ∧
    List.Forall₂ Prints groups records

/-- The fields without the section being read. -/
def RecordFields.reset (s : RecordFields) : RecordFields := { s with mode := .none }

def RecordFields.after (s : RecordFields) (item : Item) : RecordFields :=
  ⟨(item.value .name).or s.name,(item.value .category).or s.category,
    ((item.value .revision).bind (parseUnsigned u64Max)).or s.revision,
    (item.value .catalogueVersion).or s.catalogueVersion,(item.value .catalogueLicense).or s.catalogueLicense,
    s.runfiles ++ item.paths .runfiles,s.binfiles ++ item.paths .binfiles,.none⟩

/-- What the checks of an item ask for. -/
structure Item.Readable (item : Item) : Prop where
  wellFormed : item.WellFormed
  revision : ∀ value, item.value .revision = some value → (parseUnsigned u64Max value).isSome
  paths : ∀ key, ∀ path ∈ item.paths key, validateRelativePackagePath path = .ok ()

theorem splitOnce_append {separator : Char} {head : List Char} (h : separator ∉ head) (tail : List Char) :
    splitOnce separator (head ++ separator :: tail) = some (head,tail) := by
  have hhead : ∀ c ∈ head, (c != separator) = true := fun c hc => by
    rw [bne_iff_ne]
    rintro rfl
    exact h hc
  have hspan : (head ++ separator :: tail).span (· != separator) = (head,separator :: tail) := by
    rw [List.span_eq_takeWhile_dropWhile,List.takeWhile_append_of_pos hhead,List.dropWhile_append_of_pos hhead]
    simp
  rw [splitOnce,hspan]

theorem splitOnce_none {separator : Char} {text : List Char} (h : separator ∉ text) :
    splitOnce separator text = none := by
  have htext : ∀ c ∈ text, (c != separator) = true := fun c hc => by
    rw [bne_iff_ne]
    rintro rfl
    exact h hc
  have hspan : text.span (· != separator) = (text,[]) := by
    rw [List.span_eq_takeWhile_dropWhile,List.takeWhile_eq_self_iff.mpr htext,List.dropWhile_eq_nil_iff.mpr htext]
  rw [splitOnce,hspan]

theorem TlpdbKey.text_plain (key : TlpdbKey) : ' ' ∉ key.text ∧ key.text ≠ [] := by
  cases key <;> decide

theorem keyValue_field (key : TlpdbKey) (value : List Char) :
    keyValue (key.text ++ ' ' :: value) = (key.text,value) := by
  rw [keyValue,splitOnce_append key.text_plain.1]
  rfl

theorem keyValue_files (key : TlpdbKey) {header : List Char} (h : header = [] ∨ header.head? = some ' ') :
    (keyValue (key.text ++ header)).1 = key.text := by
  rcases h with rfl | h
  · rw [List.append_nil,keyValue,splitOnce_none key.text_plain.1]
    rfl
  · obtain ⟨rest,rfl⟩ := List.head?_eq_some_iff.mp h
    rw [keyValue_field]

theorem readLine_of_head {s : RecordFields} {line : List Char} (h : line.head? ≠ some ' ') :
    readLine s line = readField s.reset (keyValue line).1 (keyValue line).2 := by
  unfold readLine
  cases hstrip : stripPrefix [' '] line with
  | none => rfl
  | some path =>
    rw [stripPrefix_eq_some.mp hstrip] at h
    exact absurd rfl h

theorem TlpdbKey.head_text (key : TlpdbKey) (tail : List Char) : (key.text ++ tail).head? ≠ some ' ' := by
  obtain ⟨hblank,hne⟩ := key.text_plain
  obtain ⟨c,rest,htext⟩ := List.exists_cons_of_ne_nil hne
  rw [htext,List.cons_append,List.head?_cons,ne_eq,Option.some.injEq]
  rintro rfl
  exact hblank (by simp [htext])

theorem readField_key (s : RecordFields) (key : TlpdbKey) (value : List Char)
    (h : (Item.field key value).Readable) :
    ∃ s', readField s.reset key.text value = .ok s' ∧ s'.reset = s.after (.field key value) := by
  have hwell : key ≠ .runfiles ∧ key ≠ .binfiles := h.wellFormed
  have hrevision := h.revision value
  unfold readField
  rw [TlpdbKey.parse?_text]
  cases key with
  | runfiles => exact absurd rfl hwell.1
  | binfiles => exact absurd rfl hwell.2
  | revision =>
    obtain ⟨revision,hparse⟩ := Option.isSome_iff_exists.mp (hrevision rfl)
    refine ⟨{ s.reset with revision := some revision },?_,?_⟩
    · exact bind_ok.mpr ⟨revision,require_ok.mpr hparse,rfl⟩
    · simp [RecordFields.reset,RecordFields.after,Item.value,Item.paths,hparse]
  | name => exact ⟨_,rfl,by simp [RecordFields.reset,RecordFields.after,Item.value,Item.paths]⟩
  | category => exact ⟨_,rfl,by simp [RecordFields.reset,RecordFields.after,Item.value,Item.paths]⟩
  | catalogueVersion => exact ⟨_,rfl,by simp [RecordFields.reset,RecordFields.after,Item.value,Item.paths]⟩
  | catalogueLicense => exact ⟨_,rfl,by simp [RecordFields.reset,RecordFields.after,Item.value,Item.paths]⟩

/-- The fields with more paths in the section being read. -/
def RecordFields.withPaths (s : RecordFields) (paths : List (List Char)) : RecordFields :=
  match s.mode with
  | .none => s
  | .runfiles => { s with runfiles := s.runfiles ++ paths }
  | .binfiles => { s with binfiles := s.binfiles ++ paths }

theorem withPaths_nil (s : RecordFields) : s.withPaths [] = s := by
  obtain ⟨_,_,_,_,_,_,_,mode⟩ := s
  cases mode <;> simp [RecordFields.withPaths]

theorem withPaths_append (s : RecordFields) (first second : List (List Char)) :
    (s.withPaths first).withPaths second = s.withPaths (first ++ second) := by
  obtain ⟨_,_,_,_,_,_,_,mode⟩ := s
  cases mode <;> simp [RecordFields.withPaths]

theorem readPath_ok {s : RecordFields} {path : List Char} (h : validateRelativePackagePath path = .ok ()) :
    readPath s path = .ok (s.withPaths [path]) := by
  unfold readPath RecordFields.withPaths
  cases s.mode with
  | none => rfl
  | runfiles => exact bind_ok.mpr ⟨(),h,rfl⟩
  | binfiles => exact bind_ok.mpr ⟨(),h,rfl⟩

theorem readPaths {s : RecordFields} {paths : List (List Char)}
    (h : ∀ path ∈ paths, validateRelativePackagePath path = .ok ()) :
    (paths.map (' ' :: ·)).foldlM readLine s = .ok (s.withPaths paths) := by
  induction paths generalizing s with
  | nil => rw [withPaths_nil]; rfl
  | cons path paths ih =>
    rw [List.forall_mem_cons] at h
    rw [List.map_cons,List.foldlM_cons]
    refine bind_ok.mpr ⟨s.withPaths [path],readPath_ok h.1,?_⟩
    rw [ih h.2,withPaths_append]
    rfl

/-- Lines with a leading blank say nothing outside a file section. -/
theorem readContinued {s : RecordFields} {continued : List (List Char)} (hmode : s.mode = .none) :
    (continued.map (' ' :: ·)).foldlM readLine s = .ok s := by
  induction continued with
  | nil => rfl
  | cons line continued ih =>
    rw [List.map_cons,List.foldlM_cons]
    refine bind_ok.mpr ⟨s,?_,ih⟩
    simp [readLine,stripPrefix,readPath,hmode,pure,Except.pure]

theorem readItem {s : RecordFields} {item : Item} (h : item.Readable) :
    ∃ s', item.lines.foldlM readLine s = .ok s' ∧ s'.reset = s.after item := by
  cases item with
  | field key value =>
    obtain ⟨s',hread,hs'⟩ := readField_key s key value h
    refine ⟨s',?_,hs'⟩
    rw [Item.lines,List.foldlM_cons,readLine_of_head (key.head_text _),keyValue_field,hread]
    rfl
  | files key header paths =>
    obtain ⟨hkey,hheader⟩ := h.wellFormed
    have hpaths := h.paths key
    rw [Item.paths,if_pos rfl] at hpaths
    have hfirst : readLine s (key.text ++ header) =
        readField s.reset key.text (keyValue (key.text ++ header)).2 := by
      rw [readLine_of_head (key.head_text _),keyValue_files key hheader]
    unfold readField at hfirst
    rw [TlpdbKey.parse?_text] at hfirst
    rcases hkey with rfl | rfl
    · refine ⟨({ s.reset with mode := .runfiles }).withPaths paths,?_,?_⟩
      · exact bind_ok.mpr ⟨_,hfirst,readPaths hpaths⟩
      · simp [RecordFields.withPaths,RecordFields.reset,RecordFields.after,Item.value,Item.paths]
    · refine ⟨({ s.reset with mode := .binfiles }).withPaths paths,?_,?_⟩
      · exact bind_ok.mpr ⟨_,hfirst,readPaths hpaths⟩
      · simp [RecordFields.withPaths,RecordFields.reset,RecordFields.after,Item.value,Item.paths]
  | unknown line continued =>
    obtain ⟨-,hhead,hkey⟩ := h.wellFormed
    refine ⟨s.reset,bind_ok.mpr ⟨s.reset,?_,readContinued rfl⟩,?_⟩
    · rw [readLine_of_head hhead,readField,hkey]
      rfl
    · simp [RecordFields.reset,RecordFields.after,Item.value,Item.paths]

theorem readItems {items : List Item} (h : ∀ item ∈ items, item.Readable) (s : RecordFields) :
    ∃ s', (items.flatMap Item.lines).foldlM readLine s = .ok s' ∧
      s'.reset = items.foldl RecordFields.after s.reset := by
  induction items generalizing s with
  | nil => exact ⟨s,rfl,rfl⟩
  | cons item items ih =>
    rw [List.forall_mem_cons] at h
    obtain ⟨next,hnext,hafter⟩ := readItem (s := s) h.1
    obtain ⟨s',hrest,hs'⟩ := ih h.2 next
    refine ⟨s',?_,?_⟩
    · rw [List.flatMap_cons,List.foldlM_append]
      exact bind_ok.mpr ⟨next,hnext,hrest⟩
    · rw [hs',hafter]
      rfl

theorem foldl_or {α β σ : Type} (step : σ → α → σ) (field : σ → Option β) (said : α → Option β)
    (hstep : ∀ s a, field (step s a) = (said a).or (field s)) (l : List α) (s : σ) :
    field (l.foldl step s) = ((l.filterMap said).getLast?).or (field s) := by
  induction l generalizing s with
  | nil => rfl
  | cons a l ih =>
    rw [List.foldl_cons,ih,hstep]
    cases ha : said a with
    | none => simp [ha]
    | some b => cases hl : (l.filterMap said).getLast? <;> simp [ha,List.getLast?_cons,hl]

theorem foldl_append {α β σ : Type} (step : σ → α → σ) (field : σ → List β) (said : α → List β)
    (hstep : ∀ s a, field (step s a) = field s ++ said a) (l : List α) (s : σ) :
    field (l.foldl step s) = field s ++ l.flatMap said := by
  induction l generalizing s with
  | nil => simp
  | cons a l ih => rw [List.foldl_cons,ih,hstep,List.flatMap_cons,List.append_assoc]

theorem parseUnsigned_toDigits {n : ℕ} (h : n ≤ u64Max) :
    parseUnsigned u64Max (Nat.toDigits 10 n) = some n := by
  have hdigits : ∀ c ∈ Nat.toDigits 10 n, c.isDigit = true := fun c hc =>
    Nat.isDigit_of_mem_toDigits (by decide) (by decide) hc
  have hstrip : stripPrefix ['+'] (Nat.toDigits 10 n) = none := by
    cases hprefix : stripPrefix ['+'] (Nat.toDigits 10 n) with
    | none => rfl
    | some rest =>
      have hplus := hdigits '+' (by rw [stripPrefix_eq_some.mp hprefix]; simp)
      exact absurd hplus (by decide)
  have hvalue : digitsValue (Nat.toDigits 10 n) = n := Nat.ofDigitChars_ten_toDigits
  have hparse : parseDigits (Nat.toDigits 10 n) = some n := by
    rw [parseDigits,if_pos ⟨Nat.toDigits_ne_nil,List.all_eq_true.mpr hdigits⟩,hvalue]
  rw [parseUnsigned,hstrip,Option.getD_none,hparse]
  simp [h]

variable {items : List Item} {record : TlpdbPackageRecord}

def TlpdbPackageRecord.fields (record : TlpdbPackageRecord) : RecordFields :=
  ⟨some record.name,some record.category,some record.revision,record.catalogueVersion,record.catalogueLicense,
    record.runfiles,record.binfiles,.none⟩

theorem Prints.readable (h : Prints items record) (hvalid : record.Valid) : ∀ item ∈ items, item.Readable := by
  intro item hitem
  refine ⟨h.wellFormed item hitem,?_,?_⟩
  · intro value hvalue
    have hmem : value ∈ items.filterMap (Item.value .revision) := List.mem_filterMap.mpr ⟨item,hitem,hvalue⟩
    rw [h.revision,List.mem_singleton] at hmem
    have hbound : record.revision ≤ u64Max := Nat.le_sub_one_of_lt hvalid.revision
    rw [hmem,parseUnsigned_toDigits hbound]
    rfl
  · intro key path hpath
    have hkept : path ∈ record.runfiles ++ record.binfiles := by
      rw [← h.runfiles,← h.binfiles,List.mem_append,List.mem_flatMap,List.mem_flatMap]
      cases item with
      | files k header paths =>
        have hwell := (h.wellFormed _ hitem).1
        have hpaths : path ∈ paths := by
          rw [Item.paths] at hpath
          split_ifs at hpath
          · exact hpath
          · cases hpath
        rcases hwell with rfl | rfl
        · exact .inl ⟨_,hitem,hpaths⟩
        · exact .inr ⟨_,hitem,hpaths⟩
      | field k value => cases hpath
      | unknown line continued => cases hpath
    exact validate_ok.mpr (hvalid.paths path hkept)

theorem fields_mode (items : List Item) : (items.foldl RecordFields.after .unread).mode = .none := by
  have hmode : ∀ s : RecordFields, s.mode = .none → (items.foldl RecordFields.after s).mode = .none := by
    induction items with
    | nil => exact fun _ hs => hs
    | cons item items ih => exact fun s _ => ih (s.after item) rfl
  exact hmode .unread rfl

theorem Prints.fields (h : Prints items record) (hvalid : record.Valid) :
    items.foldl RecordFields.after .unread = record.fields := by
  have hname := foldl_or RecordFields.after RecordFields.name (Item.value .name) (fun _ _ => rfl) items .unread
  have hcategory := foldl_or RecordFields.after RecordFields.category (Item.value .category) (fun _ _ => rfl) items .unread
  have hrevision := foldl_or RecordFields.after RecordFields.revision
    (fun item : Item => (item.value .revision).bind (parseUnsigned u64Max)) (fun _ _ => rfl) items .unread
  have hversion := foldl_or RecordFields.after RecordFields.catalogueVersion (Item.value .catalogueVersion) (fun _ _ => rfl)
    items .unread
  have hlicense := foldl_or RecordFields.after RecordFields.catalogueLicense (Item.value .catalogueLicense) (fun _ _ => rfl)
    items .unread
  have hrun := foldl_append RecordFields.after RecordFields.runfiles (Item.paths .runfiles) (fun _ _ => rfl) items .unread
  have hbin := foldl_append RecordFields.after RecordFields.binfiles (Item.paths .binfiles) (fun _ _ => rfl) items .unread
  have hvalue : items.filterMap (fun item : Item => (item.value .revision).bind (parseUnsigned u64Max)) =
      [record.revision] := by
    have hbound : record.revision ≤ u64Max := Nat.le_sub_one_of_lt hvalid.revision
    rw [← List.filterMap_filterMap,h.revision]
    simp [parseUnsigned_toDigits hbound]
  rw [h.name] at hname
  rw [h.category] at hcategory
  rw [hvalue] at hrevision
  rw [h.catalogueVersion] at hversion
  rw [h.catalogueLicense] at hlicense
  rw [h.runfiles] at hrun
  rw [h.binfiles] at hbin
  apply RecordFields.ext
  · exact hname
  · exact hcategory
  · exact hrevision
  · rw [hversion]
    cases hsome : record.catalogueVersion <;> simp [TlpdbPackageRecord.fields,RecordFields.unread,hsome]
  · rw [hlicense]
    cases hsome : record.catalogueLicense <;> simp [TlpdbPackageRecord.fields,RecordFields.unread,hsome]
  · exact hrun
  · exact hbin
  · exact fields_mode items

theorem addRecord_reset (s : Database) (fields : RecordFields) : addRecord s fields.reset = addRecord s fields := rfl

def Database.with (s : Database) (record : TlpdbPackageRecord) : Database :=
  ⟨s.result.insert record.name record,record.name :: s.seenNames⟩

theorem Prints.not_blank (h : Prints items record) :
    (items.flatMap Item.lines).all (fun line => line.all isWhitespace) = false := by
  have hname : record.name ∈ items.filterMap (Item.value .name) := by rw [h.name]; exact List.mem_singleton_self _
  obtain ⟨item,hitem,hvalue⟩ := List.mem_filterMap.mp hname
  cases item with
  | files key header paths => cases hvalue
  | unknown line continued => cases hvalue
  | field key value =>
    rw [Item.value] at hvalue
    split_ifs at hvalue with hkey
    subst hkey
    refine List.all_eq_false.mpr ⟨_,List.mem_flatMap.mpr ⟨_,hitem,List.mem_singleton_self _⟩,?_⟩
    rw [List.all_append]
    have htext : TlpdbKey.name.text.all isWhitespace = false := by decide
    simp [htext]

theorem Prints.readParagraph {s : Database} (h : Prints items record) (hvalid : record.Valid)
    (hnew : record.name ∉ s.seenNames) :
    readParagraph s (items.flatMap Item.lines) = .ok (s.with record) := by
  obtain ⟨fields,hread,hfields⟩ := readItems (h.readable hvalid) .unread
  have hreset : fields.reset = record.fields := hfields.trans (h.fields hvalid)
  rw [TexIndex.readParagraph,h.not_blank,if_neg (by simp)]
  refine bind_ok.mpr ⟨fields,hread,?_⟩
  rw [← addRecord_reset,hreset]
  refine addRecord_ok.mpr ⟨record.name,record.category,rfl,hvalid.named,rfl,hvalid.categorized,hnew,.inr ⟨?_,?_⟩⟩
  · simp [isMetadata,TlpdbPackageRecord.fields]
  · exact ⟨record.revision,rfl,rfl⟩

theorem readParagraphs {groups : List (List Item)} {records : List TlpdbPackageRecord}
    (h : List.Forall₂ Prints groups records) (hvalid : ∀ record ∈ records, record.Valid)
    (hdistinct : (records.map TlpdbPackageRecord.name).Nodup) {s : Database}
    (hnew : ∀ record ∈ records, record.name ∉ s.seenNames) :
    (groups.map (fun items => items.flatMap Item.lines)).foldlM readParagraph s =
      .ok (records.foldl Database.with s) := by
  induction h generalizing s with
  | nil => rfl
  | @cons items record groups records hfirst _ ih =>
    rw [List.forall_mem_cons] at hvalid hnew
    rw [List.map_cons,List.nodup_cons] at hdistinct
    rw [List.map_cons,List.foldlM_cons]
    refine bind_ok.mpr ⟨s.with record,hfirst.readParagraph hvalid.1 hnew.1,?_⟩
    refine ih hvalid.2 hdistinct.2 fun other hother hmem => ?_
    rcases List.mem_cons.mp hmem with hsame | hmem
    · exact hdistinct.1 (hsame ▸ List.mem_map_of_mem hother)
    · exact hnew.2 other hother hmem

theorem foldl_with {records : List TlpdbPackageRecord} (hdistinct : (records.map TlpdbPackageRecord.name).Nodup)
    (s : Database) (name : List Char) (found : TlpdbPackageRecord) :
    (records.foldl Database.with s).result[name]? = some found ↔
      found ∈ records ∧ found.name = name ∨
        name ∉ records.map TlpdbPackageRecord.name ∧ s.result[name]? = some found := by
  induction records generalizing s with
  | nil => simp
  | cons record records ih =>
    rw [List.map_cons,List.nodup_cons] at hdistinct
    rw [List.foldl_cons,ih hdistinct.2,Database.with,ExtTreeMap.getElem?_insert,List.mem_cons,List.map_cons,
      List.mem_cons,not_or]
    by_cases hname : record.name = name
    · subst hname
      have hothers : ¬(found ∈ records ∧ found.name = record.name) := fun h =>
        hdistinct.1 (h.2 ▸ List.mem_map_of_mem h.1)
      rw [Std.compare_self,if_pos rfl,Option.some.injEq]
      constructor
      · rintro (h | ⟨-,rfl⟩)
        · exact absurd h hothers
        · exact .inl ⟨.inl rfl,rfl⟩
      · rintro (⟨rfl | hmem,hsame⟩ | h)
        · exact .inr ⟨hdistinct.1,rfl⟩
        · exact absurd ⟨hmem,hsame⟩ hothers
        · exact absurd rfl h.1.1
    · have hne : ¬compare record.name name = .eq := by rwa [Std.compare_eq_iff_eq]
      rw [if_neg hne]
      constructor
      · rintro (⟨hmem,hsame⟩ | ⟨hnot,hs⟩)
        · exact .inl ⟨.inr hmem,hsame⟩
        · exact .inr ⟨⟨Ne.symm hname,hnot⟩,hs⟩
      · rintro (⟨rfl | hmem,hsame⟩ | ⟨hnot,hs⟩)
        · exact absurd hsame hname
        · exact .inl ⟨hmem,hsame⟩
        · exact .inr ⟨hnot.2,hs⟩

theorem printed_parsed {records : List TlpdbPackageRecord} {text : List Char} (h : Printed records text)
    (hvalid : ∀ record ∈ records, record.Valid) (hdistinct : (records.map TlpdbPackageRecord.name).Nodup) :
    ∃ result, parseTlpdb text = .ok result ∧
      ∀ name record, result[name]? = some record ↔ record ∈ records ∧ record.name = name := by
  obtain ⟨written,groups,hwritten,hparagraphs,hgroups⟩ := h
  refine ⟨(records.foldl Database.with .empty).result,?_,?_⟩
  · rw [parseTlpdb,hwritten.readTlpdb,hparagraphs,readParagraphs hgroups hvalid hdistinct (by simp [Database.empty])]
    rfl
  · intro name record
    rw [foldl_with hdistinct]
    simp [Database.empty]

end LatexCore.TexIndex
