import Mathlib.Algebra.Order.Ring.Int
import Mathlib.Tactic.Common

/-! # Structured values

The part of the JSON value type that durable payloads use: integers, strings,
arrays and objects with a field lookup. Decoding a list of values stops at the
first value that does not decode.
-/
namespace LatexCore.Foundation

inductive Value
  | null
  | bool (value : Bool)
  | num (value : ℤ)
  | str (value : String)
  | arr (items : List Value)
  | obj (fields : List (String × Value))

namespace Value

/-- `Value::get` with a field name. -/
def get? : Value → String → Option Value
  | obj fields, name => (fields.find? (fun f => f.1 == name)).map Prod.snd
  | _, _ => none

/-- The field of an object that names it once; a struct decoder refuses a duplicate. -/
def field? : Value → String → Option Value
  | obj fields, name =>
    match fields.filter (fun f => f.1 == name) with
    | [f] => some f.2
    | _ => none
  | _, _ => none

def asStr? : Value → Option String
  | str value => some value
  | _ => none

def asBool? : Value → Option Bool
  | bool value => some value
  | _ => none

def asU64? : Value → Option ℕ
  | num value => if 0 ≤ value ∧ value < 2 ^ 64 then some value.toNat else none
  | _ => none

/-- A field of type `u32`. -/
def asU32? (v : Value) : Option ℕ := v.asU64?.filter (fun n => n < 2 ^ 32)

def asArr? : Value → Option (List Value)
  | arr items => some items
  | _ => none

def asObj? : Value → Option (List (String × Value))
  | obj fields => some fields
  | _ => none

/-- `jsonb_typeof(v) = 'object'`. -/
def isObject (v : Value) : Bool := v.asObj?.isSome

def ofNat (n : ℕ) : Value := num n

/-- `jsonb_set` of one key, and `Map::insert`: the value of the key is replaced, or the key added. -/
def set (v : Value) (name : String) (value : Value) : Value :=
  match v with
  | obj fields =>
    if fields.any (fun f => f.1 == name) then
      obj (fields.map (fun f => if f.1 == name then (name,value) else f))
    else obj (fields ++ [(name,value)])
  | other => other

@[simp] theorem get?_obj_self (name : String) (v : Value) (rest : List (String × Value)) :
    (obj ((name,v) :: rest)).get? name = some v := by
  simp [get?]

theorem get?_obj_of_ne {name other : String} (h : other ≠ name) (v : Value)
    (rest : List (String × Value)) : (obj ((other,v) :: rest)).get? name = (obj rest).get? name := by
  simp [get?,h]

@[simp] theorem asStr?_str (s : String) : (str s).asStr? = some s := rfl
@[simp] theorem asArr?_arr (items : List Value) : (arr items).asArr? = some items := rfl
@[simp] theorem asObj?_obj (fields : List (String × Value)) : (obj fields).asObj? = some fields := rfl

@[simp] theorem field?_obj (fields : List (String × Value)) (name : String) :
    (obj fields).field? name = match fields.filter (fun f => f.1 == name) with
      | [f] => some f.2
      | _ => none := rfl

theorem get?_set_self (fields : List (String × Value)) (name : String) (value : Value) :
    ((obj fields).set name value).get? name = some value := by
  simp only [set]
  split
  · next h =>
    obtain ⟨field,hf,hname⟩ := List.any_eq_true.mp h
    have hfound : ((fields.map (fun f => if f.1 == name then (name,value) else f)).find?
        (fun f => f.1 == name)).isSome := by
      rw [List.find?_isSome]
      exact ⟨(name,value),List.mem_map.mpr ⟨field,hf,by simp [hname]⟩,by simp⟩
    obtain ⟨found,hfound⟩ := Option.isSome_iff_exists.mp hfound
    have hmem := List.mem_of_find?_eq_some hfound
    have hkey := List.find?_some hfound
    obtain ⟨f,_,hf⟩ := List.mem_map.mp hmem
    simp only [get?,hfound,Option.map_some,Option.some.injEq]
    split at hf
    · rw [← hf]
    · next hne =>
      rw [hf] at hne
      exact absurd hkey hne
  · next h =>
    have hnone : fields.find? (fun f => f.1 == name) = none := by
      rw [List.find?_eq_none]
      intro f hf hname
      exact h (List.any_eq_true.mpr ⟨f,hf,hname⟩)
    simp [get?,List.find?_append,hnone]

theorem get?_set_of_ne {name other : String} (h : other ≠ name) (v value : Value) :
    (v.set name value).get? other = v.get? other := by
  have hne : ¬(name == other) = true := by simpa using fun he => h he.symm
  have hreplaced (fields : List (String × Value)) :
      (obj (fields.map (fun f => if f.1 == name then (name,value) else f))).get? other =
        (obj fields).get? other := by
    induction fields with
    | nil => rfl
    | cons f rest ih =>
      by_cases hf : f.1 = name
      · obtain ⟨key,old⟩ := f
        dsimp only at hf
        subst hf
        simpa [get?,hne] using ih
      · by_cases hother : f.1 = other
        · simp [get?,hother,h]
        · simpa [get?,hf,hother] using ih
  cases v with
  | obj fields =>
    simp only [set]
    split
    · exact hreplaced fields
    · simp [get?,List.find?_append,hne]
  | _ => rfl

theorem asU64?_ofNat {n : ℕ} (h : n < 2 ^ 64) : (ofNat n).asU64? = some n := by
  simpa [ofNat,asU64?] using h

end Value

def decodeAll {α β : Type*} (decode : α → Option β) : List α → Option (List β)
  | [] => some []
  | a :: rest =>
    match decode a, decodeAll decode rest with
    | some b, some bs => some (b :: bs)
    | _, _ => none

theorem decodeAll_map {α β : Type*} {decode : α → Option β} {encode : β → α} {bs : List β}
    (h : ∀ b ∈ bs, decode (encode b) = some b) : decodeAll decode (bs.map encode) = some bs := by
  induction bs with
  | nil => rfl
  | cons b rest ih =>
    have hb := h b (List.mem_cons_self ..)
    have hrest := ih (fun c hc => h c (List.mem_cons_of_mem _ hc))
    simp [decodeAll,hb,hrest]

end LatexCore.Foundation
