import LatexCore.TexIndex.Printed

/-! # Joined package databases

Two databases with a blank line between them are read one after the other: they give
the union of what each gives, or fail at the first name that both have. The names of a
database are those of all its records, those that describe the installation included.
-/
namespace LatexCore.TexIndex
open Core Foundation Std

def Database.beside (first s : Database) : Database :=
  ⟨first.result ∪ s.result,s.seenNames ++ first.seenNames⟩

def duplicatePackage (name : List Char) : TlpdbError := .invalidTlpdb ("duplicate package: ".toList ++ name)

theorem addRecord_beside {s s' : Database} {fields : RecordFields} (first : Database)
    (h : addRecord s fields = .ok s') : ∃ name, s'.seenNames = name :: s.seenNames ∧
      addRecord (first.beside s) fields =
        if name ∈ first.seenNames then .error (duplicatePackage name) else .ok (first.beside s') := by
  obtain ⟨name,category,hname,hnamed,hcategory,hne,hnew,hadd⟩ := addRecord_ok.mp h
  have hseen : s'.seenNames = name :: s.seenNames := by
    rcases hadd with ⟨-,rfl⟩ | ⟨-,revision,-,rfl⟩ <;> rfl
  refine ⟨name,hseen,?_⟩
  by_cases hshared : name ∈ first.seenNames
  · rw [if_pos hshared]
    unfold addRecord
    simp [hname,hnamed,hcategory,hne,Database.beside,hshared,Option.filter,require,ensure,duplicatePackage,bind,
      Except.bind]
  · rw [if_neg hshared]
    have hboth : name ∉ (first.beside s).seenNames := by simp [Database.beside,hnew,hshared]
    refine addRecord_ok.mpr ⟨name,category,hname,hnamed,hcategory,hne,hboth,?_⟩
    rcases hadd with ⟨hmeta,rfl⟩ | ⟨hmeta,revision,hrevision,rfl⟩
    · exact .inl ⟨hmeta,rfl⟩
    · refine .inr ⟨hmeta,revision,hrevision,?_⟩
      simp only [Database.beside,Database.mk.injEq,List.cons_append,and_true]
      exact ExtTreeMap.union_insert_right_eq_insert_union (p := ⟨_,_⟩)

theorem readParagraph_beside {s s' : Database} {paragraph : List (List Char)} (first : Database)
    (h : readParagraph s paragraph = .ok s') :
    s'.seenNames = s.seenNames ∧ readParagraph (first.beside s) paragraph = .ok (first.beside s') ∨
      ∃ name, s'.seenNames = name :: s.seenNames ∧ readParagraph (first.beside s) paragraph =
        if name ∈ first.seenNames then .error (duplicatePackage name) else .ok (first.beside s') := by
  unfold readParagraph at h ⊢
  split_ifs at h ⊢ with hblank
  · obtain rfl := pure_ok.mp h
    exact .inl ⟨rfl,rfl⟩
  · obtain ⟨fields,hread,hadd⟩ := bind_ok.mp h
    obtain ⟨name,hseen,hbeside⟩ := addRecord_beside first hadd
    refine .inr ⟨name,hseen,?_⟩
    rw [hread]
    exact hbeside

theorem readParagraph_seen {s s' : Database} {paragraph : List (List Char)}
    (h : readParagraph s paragraph = .ok s') : s.seenNames ⊆ s'.seenNames := by
  rcases readParagraph_beside .empty h with ⟨hseen,-⟩ | ⟨name,hseen,-⟩
  · exact hseen ▸ List.Subset.refl _
  · exact hseen ▸ List.subset_cons_self _ _

theorem foldlM_beside {found : List (List (List Char))} (first : Database) {s s' : Database}
    (h : found.foldlM readParagraph s = .ok s') (hapart : ∀ name ∈ s.seenNames, name ∉ first.seenNames) :
    (∀ name ∈ s'.seenNames, name ∉ first.seenNames) ∧
        found.foldlM readParagraph (first.beside s) = .ok (first.beside s') ∨
      ∃ name ∈ s'.seenNames, name ∈ first.seenNames ∧
        found.foldlM readParagraph (first.beside s) = .error (duplicatePackage name) := by
  induction found generalizing s with
  | nil =>
    obtain rfl := pure_ok.mp h
    exact .inl ⟨hapart,rfl⟩
  | cons paragraph found ih =>
    rw [List.foldlM_cons] at h ⊢
    obtain ⟨next,hnext,hrest⟩ := bind_ok.mp h
    have hlater : next.seenNames ⊆ s'.seenNames :=
      foldlM_ok (fun t => next.seenNames ⊆ t.seenNames)
        (fun _ _ _ hstep hsub => List.Subset.trans hsub (readParagraph_seen hstep)) hrest (List.Subset.refl _)
    rcases readParagraph_beside first hnext with ⟨hseen,hbeside⟩ | ⟨name,hseen,hbeside⟩
    · rw [hbeside]
      exact ih hrest (hseen ▸ hapart)
    · by_cases hshared : name ∈ first.seenNames
      · rw [if_pos hshared] at hbeside
        refine .inr ⟨name,hlater (by simp [hseen]),hshared,?_⟩
        rw [hbeside]
        rfl
      · rw [if_neg hshared] at hbeside
        rw [hbeside]
        refine ih hrest ?_
        rw [hseen,List.forall_mem_cons]
        exact ⟨hshared,hapart⟩

theorem beside_empty (first : Database) : first.beside .empty = first := by
  have hunion : first.result ∪ ∅ = first.result := ExtTreeMap.ext_getElem? (fun k => by
    simp [ExtTreeMap.getElem?_union])
  rw [Database.beside,Database.empty,hunion]
  rfl

theorem readParagraph_result {s s' : Database} {paragraph : List (List Char)}
    (h : readParagraph s paragraph = .ok s') (hs : ∀ name ∈ s.result, name ∈ s.seenNames) :
    ∀ name ∈ s'.result, name ∈ s'.seenNames := by
  unfold readParagraph at h
  split_ifs at h
  · obtain rfl := pure_ok.mp h
    exact hs
  · obtain ⟨fields,-,hadd⟩ := bind_ok.mp h
    obtain ⟨added,category,-,-,-,-,-,⟨-,rfl⟩ | ⟨-,revision,-,rfl⟩⟩ := addRecord_ok.mp hadd
    · exact fun name hname => List.mem_cons_of_mem _ (hs name hname)
    · intro name hname
      rcases ExtTreeMap.mem_insert.mp hname with hsame | hname
      · exact List.mem_cons.mpr (.inl (Std.compare_eq_iff_eq.mp hsame).symm)
      · exact List.mem_cons_of_mem _ (hs name hname)

theorem result_seen {input : List Char} {s : Database} (h : readTlpdb input = .ok s) :
    ∀ name ∈ s.result, name ∈ s.seenNames := by
  have hempty : ∀ name ∈ Database.empty.result, name ∈ Database.empty.seenNames := by simp [Database.empty]
  refine foldlM_ok (fun s => ∀ name ∈ s.result, name ∈ s.seenNames) (fun s block s' hstep hs => ?_) h hempty
  rw [readBlock_eq] at hstep
  exact readParagraph_result hstep hs

theorem joined_parsed {first second text : List Char} {lines later : List (List Char)} {s t : Database}
    (hjoined : Joined first second text) (hfirst : Written lines first) (hsecond : Written later second)
    (hs : readTlpdb first = .ok s) (ht : readTlpdb second = .ok t) :
    (∀ name ∈ t.seenNames, name ∉ s.seenNames) ∧ parseTlpdb text = .ok (s.result ∪ t.result) ∨
      ∃ name ∈ t.seenNames, name ∈ s.seenNames ∧ parseTlpdb text = .error (duplicatePackage name) := by
  obtain ⟨written,hwritten,hparagraphs⟩ := hjoined.paragraphs hfirst hsecond
  rw [hfirst.readTlpdb] at hs
  rw [hsecond.readTlpdb] at ht
  have hread : readTlpdb text = (paragraphs later).foldlM readParagraph (s.beside .empty) := by
    rw [hwritten.readTlpdb,hparagraphs,List.foldlM_append,hs,beside_empty]
    rfl
  rw [parseTlpdb,hread]
  rcases foldlM_beside s ht (by simp [Database.empty]) with ⟨hapart,hbeside⟩ | ⟨name,hname,hshared,herror⟩
  · rw [hbeside]
    exact .inl ⟨hapart,rfl⟩
  · rw [herror]
    exact .inr ⟨name,hname,hshared,rfl⟩

/-- The reader inverts the printing of a database, reads two joined databases as their union, and
keeps only paths that stay under any root. -/
theorem tlpdb_parsed :
    (∀ (records : List TlpdbPackageRecord) (text : List Char), Printed records text →
      (∀ record ∈ records, record.Valid) → (records.map TlpdbPackageRecord.name).Nodup →
      ∃ result, parseTlpdb text = .ok result ∧
        ∀ name record, result[name]? = some record ↔ record ∈ records ∧ record.name = name) ∧
    (∀ (first second text : List Char) (lines later : List (List Char)) (s t : Database),
      Written lines first → Written later second → Joined first second text →
      readTlpdb first = .ok s → readTlpdb second = .ok t →
      (∀ name ∈ s.result, name ∈ s.seenNames) ∧ (∀ name ∈ t.result, name ∈ t.seenNames) ∧
      ((∀ name ∈ t.seenNames, name ∉ s.seenNames) ∧ parseTlpdb text = .ok (s.result ∪ t.result) ∨
        ∃ name ∈ t.seenNames, name ∈ s.seenNames ∧ parseTlpdb text = .error (duplicatePackage name))) ∧
    ∀ (input : List Char) (result : ExtTreeMap (List Char) TlpdbPackageRecord), parseTlpdb input = .ok result →
      ∀ (name : List Char) (record : TlpdbPackageRecord), result[name]? = some record →
        ∀ path ∈ record.runfiles ++ record.binfiles, RelativePath path ∧ ∀ root, StaysUnder root path := by
  refine ⟨fun _ _ => printed_parsed,?_,?_⟩
  · intro first second text lines later s t hfirst hsecond hjoined hs ht
    exact ⟨result_seen hs,result_seen ht,joined_parsed hjoined hfirst hsecond hs ht⟩
  · intro input result hparse name record hrecord path hpath
    have hrelative := parsed_relative hparse hrecord path hpath
    exact ⟨hrelative,hrelative.staysUnder⟩

/-! ## A database of two records -/

def sampleLines : List (List Char) :=
  ["name alpha","unknown future"," more","revision 12","category Package","docfiles size=1"," doc/a.pdf",
    "runfiles size=2"," tex/a.sty"," tex/b.sty","","","name beta","category Collection","revision 3"].map
    String.toList

def sampleItems : List (List Item) :=
  [[.field .name "alpha".toList,.unknown "unknown future".toList ["more".toList],.field .revision "12".toList,
    .field .category "Package".toList,.unknown "docfiles size=1".toList ["doc/a.pdf".toList],
    .files .runfiles " size=2".toList ["tex/a.sty".toList,"tex/b.sty".toList]],
   [.field .name "beta".toList,.field .category "Collection".toList,.field .revision "3".toList]]

def alphaRecord : TlpdbPackageRecord :=
  ⟨"alpha".toList,"Package".toList,12,none,none,["tex/a.sty".toList,"tex/b.sty".toList],[]⟩

def betaRecord : TlpdbPackageRecord := ⟨"beta".toList,"Collection".toList,3,none,none,[],[]⟩

theorem sample_printed : Printed [alphaRecord,betaRecord] (endedBy ['\r','\n'] sampleLines) := by
  refine ⟨sampleLines,sampleItems,written_endedBy (.inr rfl) (by decide) (by decide),by decide,?_⟩
  refine .cons ⟨?_,rfl,rfl,rfl,rfl,rfl,rfl,rfl⟩ (.cons ⟨?_,rfl,rfl,rfl,rfl,rfl,rfl,rfl⟩ .nil)
  · decide
  · decide

theorem sample_valid : ∀ record ∈ [alphaRecord,betaRecord], record.Valid := by
  simp only [List.forall_mem_cons,List.not_mem_nil,false_implies,implies_true,and_true]
  refine ⟨⟨by decide,by decide,by decide,?_⟩,⟨by decide,by decide,by decide,by simp [betaRecord]⟩⟩
  have hpaths : ∀ path ∈ alphaRecord.runfiles ++ alphaRecord.binfiles,
      validateRelativePackagePath path = .ok () := by decide
  exact fun path hpath => validate_ok.mp (hpaths path hpath)

theorem tlpdb_parsed_sample : ∃ result, parseTlpdb (endedBy ['\r','\n'] sampleLines) = .ok result ∧
    ∀ name record, result[name]? = some record ↔
      record ∈ [alphaRecord,betaRecord] ∧ record.name = name :=
  tlpdb_parsed.1 _ _ sample_printed sample_valid (by decide)

end LatexCore.TexIndex
