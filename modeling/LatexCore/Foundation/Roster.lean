import LatexCore.Foundation.Table
import LatexCore.Foundation.Transaction

/-! # Rosters

The members of a group, of whom some have a place in an order and one may lead. No two
members have the same place and no two lead; both are unique indexes, which every row
that is written has to meet. A statement can vacate places at once, while a list of
members is seated row by row, at consecutive places. The main rule says when all find
theirs free.
-/
namespace LatexCore.Foundation

/-- The place of a member in the order of its group, and whether it leads. -/
structure Seat where
  order : Option ℕ
  leads : Bool
deriving DecidableEq

namespace Seat

def vacant : Seat := ⟨none,false⟩

/-- The two seats meet in one of the unique indexes. -/
def clashes (a b : Seat) : Bool := (a.leads && b.leads) || (a.order.isSome && a.order == b.order)

theorem clashes_comm (a b : Seat) : a.clashes b = b.clashes a := by
  obtain ⟨order,leads⟩ := a
  obtain ⟨order',leads'⟩ := b
  cases order with
  | none => cases order' <;> simp [clashes,Bool.and_comm]
  | some n =>
    cases order' with
    | none => simp [clashes,Bool.and_comm]
    | some m =>
      have hsame : (n == m) = (m == n) := Bool.eq_iff_iff.mpr (by rw [beq_iff_eq,beq_iff_eq,eq_comm])
      simp [clashes,Bool.and_comm,hsame]

@[simp] theorem vacant_clashes (s : Seat) : vacant.clashes s = false := rfl

@[simp] theorem clashes_vacant (s : Seat) : s.clashes vacant = false := by
  rw [clashes_comm,vacant_clashes]

end Seat

structure Roster (κ ν : Type) [DecidableEq κ] (seat : ν → Seat) where
  table : Table κ ν
  apart : ∀ k v k' v', table.get? k = some v → table.get? k' = some v' → k ≠ k' →
    (seat v).clashes (seat v') = false

namespace Roster
variable {κ ν : Type} [DecidableEq κ] {seat : ν → Seat} {t u : Roster κ ν seat} {k x : κ} {v : ν}

def empty : Roster κ ν seat := ⟨.empty,by simp⟩

def get? (t : Roster κ ν seat) (k : κ) : Option ν := t.table.get? k

@[simp] theorem get?_empty (k : κ) : (empty : Roster κ ν seat).get? k = none := rfl

/-- No member but the given one meets the seat. -/
def free (t : Roster κ ν seat) (k : κ) (s : Seat) : Bool :=
  t.table.rows.all (fun r => r.1 == k || !s.clashes (seat r.2))

theorem free_iff {s : Seat} : t.free k s = true ↔
    ∀ x v, t.get? x = some v → x ≠ k → s.clashes (seat v) = false := by
  rw [free,List.all_eq_true]
  constructor
  · intro h x v hget hne
    have hrow := h (x,v) (Table.mem_rows_iff.mpr hget)
    simpa [hne] using hrow
  · rintro h ⟨x,v⟩ hmem
    by_cases hx : x = k
    · simp [hx]
    · simp [h x v (Table.mem_rows_iff.mp hmem) hx]

/-! ## Rows -/

/-- A row is written if no other member has its seat. -/
def put? (t : Roster κ ν seat) (k : κ) (v : ν) : Option (Roster κ ν seat) :=
  if h : t.free k (seat v) = true then
    some ⟨t.table.upsert k v,by
      intro x w x' w' hx hx' hne
      rw [Table.get?_upsert] at hx hx'
      have hfree := free_iff.mp h
      split at hx
      · next hxk =>
        obtain rfl := Option.some.inj hx
        rw [if_neg (fun hk => hne (hxk.trans hk.symm))] at hx'
        exact hfree x' w' hx' (fun hk => hne (hxk.trans hk.symm))
      · next hxk =>
        split at hx'
        · obtain rfl := Option.some.inj hx'
          rw [Seat.clashes_comm]
          exact hfree x w hx hxk
        · exact t.apart x w x' w' hx hx' hne⟩
  else none

theorem get?_put? (h : t.put? k v = some u) (x : κ) : u.get? x = if x = k then some v else t.get? x := by
  unfold put? at h
  split at h
  · obtain rfl := Option.some.inj h
    exact Table.get?_upsert t.table k v x
  · cases h

theorem put?_isSome (h : ∀ x w, t.get? x = some w → x ≠ k → (seat v).clashes (seat w) = false) :
    ∃ u, t.put? k v = some u := by
  unfold put?
  rw [dif_pos (free_iff.mpr h)]
  exact ⟨_,rfl⟩

theorem rows_put? (h : t.put? k v = some u) (hnew : t.get? k = none) : u.table.rows = t.table.rows ++ [(k,v)] := by
  unfold put? at h
  split at h
  · obtain rfl := Option.some.inj h
    obtain ⟨inserted,hinserted⟩ := Table.insert?_isSome hnew v
    dsimp only
    rw [Table.upsert,hinserted,Option.getD_some,(Table.insert?_eq_some hinserted).2]
  · cases h

def vacate (t : Roster κ ν seat) (p : κ → ν → Bool) (leave : ν → ν) (hleave : ∀ v, seat (leave v) = .vacant) :
    Roster κ ν seat where
  table := t.table.updateWhere p leave
  apart := by
    intro x w x' w' hx hx' hne
    rw [Table.get?_updateWhere] at hx hx'
    obtain ⟨v,hv,rfl⟩ := Option.map_eq_some_iff.mp hx
    obtain ⟨v',hv',rfl⟩ := Option.map_eq_some_iff.mp hx'
    split
    · rw [hleave,Seat.vacant_clashes]
    · split
      · rw [hleave,Seat.clashes_vacant]
      · exact t.apart x v x' v' hv hv' hne

theorem get?_vacate (t : Roster κ ν seat) (p : κ → ν → Bool) (leave : ν → ν)
    (hleave : ∀ v, seat (leave v) = .vacant) (k : κ) :
    (t.vacate p leave hleave).get? k = (t.get? k).map (fun v => if p k v then leave v else v) :=
  Table.get?_updateWhere t.table p leave k

/-- `INSERT … ON CONFLICT DO NOTHING` of a row without a seat. -/
def enroll (t : Roster κ ν seat) (k : κ) (v : ν) (hv : seat v = .vacant) : Roster κ ν seat :=
  match h : t.table.insert? k v with
  | none => t
  | some table => ⟨table,by
      intro x w x' w' hx hx' hne
      rw [Table.get?_insert? h] at hx hx'
      split at hx
      · obtain rfl := Option.some.inj hx
        rw [hv,Seat.vacant_clashes]
      · split at hx'
        · obtain rfl := Option.some.inj hx'
          rw [hv,Seat.clashes_vacant]
        · exact t.apart x w x' w' hx hx' hne⟩

theorem get?_enroll (t : Roster κ ν seat) (k : κ) (v : ν) (hv : seat v = .vacant) (x : κ) :
    (t.enroll k v hv).get? x = (t.get? x).or (if x = k then some v else none) := by
  unfold enroll
  split
  · next h =>
    have hthere : t.table.get? k ≠ none := by
      intro hnone
      obtain ⟨table,htable⟩ := Table.insert?_isSome hnone v
      rw [htable] at h
      cases h
    by_cases hx : x = k
    · subst hx
      cases hget : t.get? x with
      | none => exact absurd hget hthere
      | some w => simp
    · simp [hx]
  · next table h =>
    have hnone := (Table.insert?_eq_some h).1
    change table.get? x = _
    rw [Table.get?_insert? h]
    by_cases hx : x = k
    · subst hx
      have hget : t.get? x = none := hnone
      simp [hget]
    · simp only [if_neg hx,Option.or_none]
      rfl

def enrollAll (value : κ → ν) (hvalue : ∀ k, seat (value k) = .vacant) (t : Roster κ ν seat) (keys : List κ) :
    Roster κ ν seat :=
  keys.foldl (fun t k => t.enroll k (value k) (hvalue k)) t

theorem get?_enrollAll (value : κ → ν) (hvalue : ∀ k, seat (value k) = .vacant) (t : Roster κ ν seat)
    (keys : List κ) (x : κ) : (enrollAll value hvalue t keys).get? x =
      (t.get? x).or (if x ∈ keys then some (value x) else none) := by
  induction keys generalizing t with
  | nil => simp [enrollAll]
  | cons k rest ih =>
    have hrest := ih (t.enroll k (value k) (hvalue k))
    rw [enrollAll,List.foldl_cons]
    refine hrest.trans ?_
    rw [get?_enroll,Option.or_assoc]
    congr 1
    by_cases hx : x = k
    · subst hx
      simp
    · simp [hx]

/-! ## Seating in order -/

variable {ε : Type} (limit : ℕ) (tooMany clash : ε) (value : κ → Option ν → ℕ → Option ν)

/-- One row of the seating; without a new value the row is left alone. -/
def write? (t : Roster κ ν seat) (k : κ) (place : ℕ) : Option (Roster κ ν seat) :=
  match value k (t.get? k) place with
  | none => some t
  | some v => t.put? k v

def fill : ℕ → List κ → Roster κ ν seat → Except ε (Roster κ ν seat)
  | _,[],t => pure t
  | place,k :: rest,t => do
    ensure (place + 1 ≤ limit) tooMany
    let t ← require (t.write? value k (place + 1)) clash
    fill (place + 1) rest t

variable {limit tooMany clash value} {place : ℕ} {keys : List κ}

theorem get?_write? (h : t.write? value k place = some u) (x : κ) :
    u.get? x = if x = k then (value k (t.get? k) place).or (t.get? k) else t.get? x := by
  unfold write? at h
  split at h
  · next hvalue =>
    obtain rfl := Option.some.inj h
    split
    · next hx => rw [hx,hvalue,Option.none_or]
    · rfl
  · next v hvalue =>
    rw [get?_put? h,hvalue]
    rfl

theorem fill_cons {rest : List κ} : fill limit tooMany clash value place (k :: rest) t = .ok u ↔
    place + 1 ≤ limit ∧ ∃ next, t.write? value k (place + 1) = some next ∧
      fill limit tooMany clash value (place + 1) rest next = .ok u := by
  simp only [fill,bind_ok,ensure_ok,require_ok,decide_eq_true_eq,exists_const]

theorem fill_limit (h : fill limit tooMany clash value place keys t = .ok u) :
    keys = [] ∨ place + keys.length ≤ limit := by
  induction keys generalizing place t with
  | nil => exact .inl rfl
  | cons k rest ih =>
    obtain ⟨hlimit,next,-,hrest⟩ := fill_cons.mp h
    refine .inr ?_
    rcases ih hrest with rfl | hle
    · simpa using hlimit
    · simp only [List.length_cons]
      omega

theorem get?_fill (hnodup : keys.Nodup) (h : fill limit tooMany clash value place keys t = .ok u) (x : κ) :
    u.get? x = if x ∈ keys then (value x (t.get? x) (place + keys.idxOf x + 1)).or (t.get? x) else t.get? x := by
  induction keys generalizing place t with
  | nil =>
    rw [fill,pure_ok] at h
    subst h
    simp
  | cons k rest ih =>
    obtain ⟨hnew,hnodup'⟩ := List.nodup_cons.mp hnodup
    obtain ⟨-,next,hnext,hrest⟩ := fill_cons.mp h
    rw [ih hnodup' hrest,get?_write? hnext]
    by_cases hx : x = k
    · subst hx
      simp [hnew]
    · have hidx : (k :: rest).idxOf x = rest.idxOf x + 1 := List.idxOf_cons_ne rest (Ne.symm hx)
      have hplace : place + 1 + rest.idxOf x + 1 = place + (rest.idxOf x + 1) + 1 := by omega
      rw [if_neg hx,hidx,hplace]
      simp only [List.mem_cons,hx,false_or]

/-- New members are appended in their order. -/
theorem rows_fill (new : κ → ℕ → ν) (hnodup : keys.Nodup) (hnew : ∀ k ∈ keys, t.get? k = none)
    (hvalue : ∀ k place, value k none place = some (new k place))
    (h : fill limit tooMany clash value place keys t = .ok u) :
    u.table.rows = t.table.rows ++ keys.mapIdx (fun i k => (k,new k (place + i + 1))) := by
  induction keys generalizing place t with
  | nil =>
    rw [fill,pure_ok] at h
    subst h
    simp
  | cons k rest ih =>
    obtain ⟨hfresh,hnodup'⟩ := List.nodup_cons.mp hnodup
    obtain ⟨-,next,hnext,hrest⟩ := fill_cons.mp h
    have hnone := hnew k List.mem_cons_self
    have hother : ∀ x ∈ rest, next.get? x = none := by
      intro x hx
      have hne : x ≠ k := by
        rintro rfl
        exact hfresh hx
      rw [get?_write? hnext,if_neg hne]
      exact hnew x (List.mem_cons_of_mem k hx)
    have hrow : next.table.rows = t.table.rows ++ [(k,new k (place + 1))] := by
      rw [write?,hnone,hvalue] at hnext
      exact rows_put? hnext hnone
    rw [ih hnodup' hother hrest,hrow,List.mapIdx_cons,List.append_assoc,List.singleton_append]
    congr 3
    funext i y
    rw [Nat.add_assoc place 1 i,Nat.add_comm 1 i]

/-- All members find their seats free if these are past or before the places that are taken, and the
only one of them that leads is alone in the group in doing so. -/
theorem fill_succeeds (leads : κ → Bool) (hnodup : keys.Nodup) (hlimit : place + keys.length ≤ limit)
    (hvalue : ∀ k ∈ keys, ∀ place, ∃ v, value k (t.get? k) place = some v ∧ seat v = ⟨some place,leads k⟩)
    (horders : ∀ x v n, t.get? x = some v → (seat v).order = some n → n ≤ place ∨ place + keys.length < n)
    (hleads : ∀ k ∈ keys, leads k = true → (∀ k' ∈ keys, leads k' = true → k' = k) ∧
      ∀ x v, t.get? x = some v → x ≠ k → (seat v).leads = false) :
    ∃ u, fill limit tooMany clash value place keys t = .ok u := by
  induction keys generalizing place t with
  | nil => exact ⟨t,rfl⟩
  | cons k rest ih =>
    obtain ⟨hnew,hnodup'⟩ := List.nodup_cons.mp hnodup
    rw [List.length_cons] at hlimit horders
    obtain ⟨v,hv,hseat⟩ := hvalue k List.mem_cons_self (place + 1)
    obtain ⟨next,hput⟩ := put?_isSome (t := t) (k := k) (v := v) (by
      intro x w hx hne
      rw [hseat,Seat.clashes,Bool.or_eq_false_iff]
      constructor
      · cases hk : leads k with
        | false => rfl
        | true =>
          rw [(hleads k List.mem_cons_self hk).2 x w hx hne]
          rfl
      · rw [Option.isSome_some,Bool.true_and,beq_eq_false_iff_ne]
        intro heq
        rcases horders x w (place + 1) hx heq.symm with hle | hlt
        · omega
        · omega)
    have hwrite : t.write? value k (place + 1) = some next := by
      rw [write?,hv]
      exact hput
    have hget := get?_put? hput
    have hlater : ∀ x ∈ rest, next.get? x = t.get? x := by
      intro x hx
      have hne : x ≠ k := by
        rintro rfl
        exact hnew hx
      rw [hget,if_neg hne]
    have hvalue' : ∀ x ∈ rest, ∀ n, ∃ v, value x (next.get? x) n = some v ∧ seat v = ⟨some n,leads x⟩ := by
      intro x hx n
      rw [hlater x hx]
      exact hvalue x (List.mem_cons_of_mem k hx) n
    have horders' : ∀ x w n, next.get? x = some w → (seat w).order = some n →
        n ≤ place + 1 ∨ place + 1 + rest.length < n := by
      intro x w n hx hn
      rw [hget] at hx
      split at hx
      · obtain rfl := Option.some.inj hx
        rw [hseat,Option.some.injEq] at hn
        omega
      · rcases horders x w n hx hn with hle | hlt
        · omega
        · omega
    have hleads' : ∀ x ∈ rest, leads x = true → (∀ y ∈ rest, leads y = true → y = x) ∧
        ∀ y w, next.get? y = some w → y ≠ x → (seat w).leads = false := by
      intro x hx hlead
      obtain ⟨honly,hothers⟩ := hleads x (List.mem_cons_of_mem k hx) hlead
      refine ⟨fun y hy => honly y (List.mem_cons_of_mem k hy),?_⟩
      intro y w hy hne
      rw [hget] at hy
      split at hy
      · next hyk =>
        obtain rfl := Option.some.inj hy
        rw [hseat]
        cases hk : leads k with
        | false => rfl
        | true => exact absurd (hyk.trans (honly k List.mem_cons_self hk)) hne
      · exact hothers y w hy hne
    obtain ⟨u,hu⟩ := ih hnodup' (by omega) hvalue' horders' hleads'
    exact ⟨u,fill_cons.mpr ⟨by omega,next,hwrite,hu⟩⟩

end Roster

end LatexCore.Foundation
