import Mathlib.Data.Finset.Card
import Mathlib.Data.List.Chain
import Mathlib.Logic.Relation

/-! # Searches of directed graphs

A depth-first search for cycles keeps the nodes it has visited, the nodes it is in, the
innermost first, and the nodes that it has come back to, in the order of the reports.
Each reported node is on a cycle, and each cycle has a reported node in its component.
The other search repeats a pass that adds nodes until the number of nodes stays the
same. The fuel bounds the depth of the calls and the passes; one more than the number
of nodes is enough.
-/
namespace LatexCore.Foundation
open Relation

/-! ## Repeated passes -/

section Passes
variable {σ : Type*} (size : σ → ℕ) (pass : σ → σ)

def untilStable : ℕ → σ → Option σ
  | 0, _ => none
  | fuel + 1, s => if size (pass s) = size s then some (pass s) else untilStable fuel (pass s)

variable {size pass}

/-- The result is that of a pass that has added nothing, and what the passes keep holds of it. -/
theorem untilStable_cases (inv : σ → Prop) (hpass : ∀ s, inv s → inv (pass s)) {fuel : ℕ} {s t : σ}
    (h : untilStable size pass fuel s = some t) (hs : inv s) :
    ∃ u, inv u ∧ t = pass u ∧ size (pass u) = size u := by
  induction fuel generalizing s with
  | zero => cases h
  | succ fuel ih =>
    rw [untilStable] at h
    split at h
    · next hsize => exact ⟨s,hs,(Option.some.inj h).symm,hsize⟩
    · exact ih h (hpass s hs)

/-- The passes end if they only add and cannot add beyond a bound. -/
theorem untilStable_returns (inv : σ → Prop) (hpass : ∀ s, inv s → inv (pass s)) {bound : ℕ}
    (hgrow : ∀ s, inv s → size s ≤ size (pass s)) (hbound : ∀ s, inv s → size s ≤ bound) {fuel : ℕ}
    {s : σ} (hs : inv s) (hfuel : bound < fuel + size s) : ∃ t, untilStable size pass fuel s = some t := by
  induction fuel generalizing s with
  | zero =>
    have hle := hbound s hs
    omega
  | succ fuel ih =>
    rw [untilStable]
    split
    · exact ⟨_,rfl⟩
    · next hsize =>
      have hle := hgrow s hs
      exact ih (hpass s hs) (by omega)

end Passes

/-! ## Depth-first search -/

namespace DepthFirst

variable {α : Type*} [DecidableEq α] (next : α → List α)

structure Search (α : Type*) where
  visited : List α
  active : List α
  reported : List α

def Search.empty : Search α := ⟨[],[],[]⟩

def Search.report (node : α) (s : Search α) : Search α :=
  if node ∈ s.reported then s else { s with reported := s.reported ++ [node] }

def Search.enter (node : α) (s : Search α) : Search α :=
  { s with
    visited := node :: s.visited
    active := node :: s.active }

def Search.leave (node : α) (s : Search α) : Search α := { s with active := s.active.erase node }

def visit : ℕ → Search α → α → Option (Search α)
  | 0, _, _ => none
  | fuel + 1, s, node =>
    if node ∈ s.active then some (s.report node)
    else if node ∈ s.visited then some s
    else ((next node).foldlM (visit fuel) (s.enter node)).map (Search.leave node)

def search (fuel : ℕ) (starts : List α) : Option (Search α) := starts.foldlM (visit next fuel) .empty

def Edge (a b : α) : Prop := b ∈ next a

variable {next}

theorem visit_cases {fuel : ℕ} {s s' : Search α} {node : α} (h : visit next (fuel + 1) s node = some s') :
    (node ∈ s.active ∧ s' = s.report node) ∨
      (node ∉ s.active ∧ node ∈ s.visited ∧ s' = s) ∨
      (node ∉ s.active ∧ node ∉ s.visited ∧
        ∃ t, (next node).foldlM (visit next fuel) (s.enter node) = some t ∧ s' = t.leave node) := by
  rw [visit] at h
  split at h
  · next hactive => exact .inl ⟨hactive,(Option.some.inj h).symm⟩
  · next hactive =>
    split at h
    · next hvisited => exact .inr (.inl ⟨hactive,hvisited,(Option.some.inj h).symm⟩)
    · next hvisited =>
      obtain ⟨t,ht,hleave⟩ := Option.map_eq_some_iff.mp h
      exact .inr (.inr ⟨hactive,hvisited,t,ht,hleave.symm⟩)

omit [DecidableEq α] in
theorem foldlM_rel {call : Search α → α → Option (Search α)} (rel : Search α → Search α → Prop)
    (hrefl : ∀ s, rel s s) (htrans : ∀ {s t u}, rel s t → rel t u → rel s u)
    (hcall : ∀ {s t node}, call s node = some t → rel s t) {nodes : List α} {s t : Search α}
    (h : nodes.foldlM call s = some t) : rel s t := by
  induction nodes generalizing s with
  | nil =>
    obtain rfl : s = t := Option.some.inj h
    exact hrefl s
  | cons node rest ih =>
    rw [List.foldlM_cons] at h
    obtain ⟨u,hu,hrest⟩ := Option.bind_eq_some_iff.mp h
    exact htrans (hcall hu) (ih hrest)

/-! ## What a call keeps -/

/-- The nodes that the search is in are the same again, and the others only grow. -/
structure Grown (s t : Search α) : Prop where
  active : t.active = s.active
  visited : s.visited ⊆ t.visited
  reported : s.reported ⊆ t.reported

omit [DecidableEq α] in
theorem Grown.refl (s : Search α) : Grown s s := ⟨rfl,List.Subset.refl _,List.Subset.refl _⟩

omit [DecidableEq α] in
theorem Grown.trans {s t u : Search α} (h : Grown s t) (h' : Grown t u) : Grown s u :=
  ⟨h'.active.trans h.active,List.Subset.trans h.visited h'.visited,
    List.Subset.trans h.reported h'.reported⟩

theorem grown_report (node : α) (s : Search α) : Grown s (s.report node) := by
  unfold Search.report
  split
  · exact .refl s
  · exact ⟨rfl,List.Subset.refl _,List.subset_append_left ..⟩

theorem mem_report (node : α) (s : Search α) : node ∈ (s.report node).reported := by
  unfold Search.report
  split
  · next h => exact h
  · simp

theorem visit_grown {fuel : ℕ} {s s' : Search α} {node : α} (h : visit next fuel s node = some s') :
    Grown s s' := by
  induction fuel generalizing s s' node with
  | zero => cases h
  | succ fuel ih =>
    rcases visit_cases h with ⟨-,rfl⟩ | ⟨-,-,rfl⟩ | ⟨-,-,t,ht,rfl⟩
    · exact grown_report node s
    · exact .refl _
    · have grown : Grown (s.enter node) t := foldlM_rel Grown .refl Grown.trans ih ht
      refine ⟨?_,fun a ha => grown.visited (List.mem_cons_of_mem _ ha),grown.reported⟩
      rw [Search.leave,grown.active]
      exact List.erase_cons_head ..

theorem foldlM_grown {fuel : ℕ} {nodes : List α} {s t : Search α}
    (h : nodes.foldlM (visit next fuel) s = some t) : Grown s t :=
  foldlM_rel Grown .refl Grown.trans visit_grown h

/-! ## The order of leaving -/

variable (next) in
/-- Each node of the list has all its targets further down the list or among the reported. -/
def Settled (reported : List α) : List α → Prop
  | [] => True
  | a :: earlier => (∀ b ∈ next a, b ∈ earlier ∨ b ∈ reported) ∧ Settled reported earlier

omit [DecidableEq α] in
theorem Settled.mono {reported more : List α} (hsub : reported ⊆ more) {done : List α}
    (h : Settled next reported done) : Settled next more done := by
  induction done with
  | nil => trivial
  | cons a earlier ih => exact ⟨fun b hb => (h.1 b hb).imp_right (hsub ·),ih h.2⟩

omit [DecidableEq α] in
theorem Settled.reported_of_cycle {reported done : List α} (h : Settled next reported done) {a : α}
    (ha : a ∈ done) (hcycle : TransGen (Edge next) a a) :
    ∃ b ∈ reported, ReflTransGen (Edge next) a b ∧ ReflTransGen (Edge next) b a := by
  induction done generalizing a with
  | nil => cases ha
  | cons d earlier ih =>
    rcases List.mem_cons.mp ha with rfl | hearlier
    · obtain ⟨b,hedge,hback⟩ := TransGen.head'_iff.mp hcycle
      rcases h.1 b hedge with hb | hb
      · obtain ⟨c,hc,hto,hfrom⟩ := ih h.2 hb (TransGen.tail'_iff.mpr ⟨a,hback,hedge⟩)
        exact ⟨c,hc,.head hedge hto,hfrom.trans hback⟩
      · exact ⟨b,hb,.single hedge,hback⟩
    · exact ih h.2 hearlier hcycle

variable (next) in
structure Inv (s : Search α) (done : List α) : Prop where
  path : s.active.IsChain (fun inner outer => inner ∈ next outer)
  cyclic : ∀ a ∈ s.reported, TransGen (Edge next) a a
  once : s.reported.Nodup
  settled : Settled next s.reported done
  left : ∀ a, a ∈ done ↔ a ∈ s.visited ∧ a ∉ s.active

omit [DecidableEq α] in
theorem inv_empty : Inv next (.empty : Search α) [] :=
  ⟨.nil,by simp [Search.empty],List.nodup_nil,trivial,by simp [Search.empty]⟩

omit [DecidableEq α] in
/-- Every node of a path leads to its innermost node. -/
theorem reaches_top {top : α} {outer : List α}
    (h : (top :: outer).IsChain (fun inner outer => inner ∈ next outer)) :
    ∀ a ∈ top :: outer, ReflTransGen (Edge next) a top := by
  induction outer generalizing top with
  | nil =>
    intro a ha
    obtain rfl : a = top := by simpa using ha
    exact .refl
  | cons parent outer ih =>
    rw [List.isChain_cons_cons] at h
    intro a ha
    rcases List.mem_cons.mp ha with rfl | ha
    · exact .refl
    · exact (ih h.2 a ha).tail h.1

/-- The node that a call is made for is a target of the innermost node. -/
def Entered (next : α → List α) (s : Search α) (node : α) : Prop := ∀ top ∈ s.active.head?, node ∈ next top

theorem Inv.report {s : Search α} {done : List α} {node : α} (inv : Inv next s done)
    (hentered : Entered next s node) (hactive : node ∈ s.active) : Inv next (s.report node) done := by
  have hcycle : TransGen (Edge next) node node := by
    cases hstack : s.active with
    | nil => rw [hstack] at hactive; cases hactive
    | cons top outer =>
      have hreach := reaches_top (hstack ▸ inv.path) node (hstack ▸ hactive)
      exact TransGen.tail'_iff.mpr ⟨top,hreach,hentered top (by rw [hstack]; rfl)⟩
  have hgrown := grown_report node s
  unfold Search.report at hgrown ⊢
  split
  · exact inv
  · next hnew =>
    rw [if_neg hnew] at hgrown
    refine ⟨inv.path,?_,?_,inv.settled.mono hgrown.reported,inv.left⟩
    · intro a ha
      rcases List.mem_append.mp ha with ha | ha
      · exact inv.cyclic a ha
      · obtain rfl : a = node := by simpa using ha
        exact hcycle
    · exact inv.once.append (List.nodup_singleton _) (by simpa using hnew)

omit [DecidableEq α] in
theorem Inv.enter {s : Search α} {done : List α} {node : α} (inv : Inv next s done)
    (hentered : Entered next s node) (hnew : node ∉ s.visited) : Inv next (s.enter node) done := by
  refine ⟨?_,inv.cyclic,inv.once,inv.settled,fun a => ?_⟩
  · exact List.isChain_cons.mpr ⟨hentered,inv.path⟩
  · rw [inv.left a,Search.enter,List.mem_cons,List.mem_cons,not_or]
    constructor
    · exact fun h => ⟨.inr h.1,fun heq => hnew (heq ▸ h.1),h.2⟩
    · exact fun h => ⟨h.1.resolve_left h.2.1,h.2.2⟩

theorem visit_inv {fuel : ℕ} {s s' : Search α} {node : α} {done : List α}
    (h : visit next fuel s node = some s') (inv : Inv next s done) (hentered : Entered next s node) :
    ∃ later, Inv next s' (later ++ done) ∧ (node ∈ later ++ done ∨ node ∈ s'.reported) := by
  induction fuel generalizing s s' node done with
  | zero => cases h
  | succ fuel ih =>
    have hloop : ∀ (nodes : List α) {t t' : Search α} {done : List α},
        nodes.foldlM (visit next fuel) t = some t' → Inv next t done →
        (∀ target ∈ nodes, Entered next t target) → ∃ later, Inv next t' (later ++ done) ∧
          ∀ target ∈ nodes, target ∈ later ++ done ∨ target ∈ t'.reported := by
      intro nodes
      induction nodes with
      | nil =>
        intro t t' done hfold inv _
        obtain rfl : t = t' := Option.some.inj hfold
        exact ⟨[],inv,by simp⟩
      | cons target rest ihrest =>
        intro t t' done hfold inv hall
        rw [List.foldlM_cons] at hfold
        obtain ⟨u,hu,hrest⟩ := Option.bind_eq_some_iff.mp hfold
        obtain ⟨first,hinv,htarget⟩ := ih hu inv (hall target List.mem_cons_self)
        have hsame : u.active = t.active := (visit_grown hu).active
        obtain ⟨later,hinv',hall'⟩ := ihrest hrest hinv (fun other hother => by
          rw [Entered,hsame]
          exact hall other (List.mem_cons_of_mem _ hother))
        refine ⟨later ++ first,by rwa [List.append_assoc],fun other hother => ?_⟩
        rw [List.append_assoc]
        rcases List.mem_cons.mp hother with rfl | hother
        · exact htarget.imp (List.mem_append_right _ ·) ((foldlM_grown hrest).reported ·)
        · exact hall' other hother
    rcases visit_cases h with ⟨hactive,rfl⟩ | ⟨hactive,hvisited,rfl⟩ | ⟨hactive,hvisited,t,ht,rfl⟩
    · exact ⟨[],inv.report hentered hactive,.inr (mem_report node s)⟩
    · exact ⟨[],inv,.inl ((inv.left node).mpr ⟨hvisited,hactive⟩)⟩
    · have hgrown := foldlM_grown ht
      have hstack : (t.leave node).active = s.active := by
        rw [Search.leave,hgrown.active]
        exact List.erase_cons_head ..
      obtain ⟨later,hinv,htargets⟩ := hloop (next node) ht (inv.enter hentered hvisited)
        (fun target htarget top htop => by
          obtain rfl : node = top := by simpa [Search.enter] using htop
          exact htarget)
      refine ⟨node :: later,⟨hstack ▸ inv.path,hinv.cyclic,hinv.once,⟨htargets,hinv.settled⟩,fun a => ?_⟩,
        .inl List.mem_cons_self⟩
      rw [List.cons_append,List.mem_cons,hinv.left a,hgrown.active,hstack,Search.enter,Search.leave,
        List.mem_cons,not_or]
      constructor
      · rintro (rfl | h)
        · exact ⟨hgrown.visited List.mem_cons_self,hactive⟩
        · exact ⟨h.1,h.2.2⟩
      · rintro ⟨hmem,hnot⟩
        by_cases heq : a = node
        · exact .inl heq
        · exact .inr ⟨hmem,heq,hnot⟩

/-- The calls from the starts keep the invariant, and afterwards every start is left or reported. -/
theorem search_inv {fuel : ℕ} {starts : List α} {s s' : Search α} {done : List α}
    (h : starts.foldlM (visit next fuel) s = some s') (inv : Inv next s done) (hidle : s.active = []) :
    ∃ done', Inv next s' done' ∧ s'.active = [] ∧ ∀ start ∈ starts, start ∈ s'.visited := by
  induction starts generalizing s done with
  | nil =>
    obtain rfl : s = s' := Option.some.inj h
    exact ⟨done,inv,hidle,by simp⟩
  | cons start rest ih =>
    rw [List.foldlM_cons] at h
    obtain ⟨u,hu,hrest⟩ := Option.bind_eq_some_iff.mp h
    obtain ⟨later,hinv,-⟩ := visit_inv hu inv (by simp [Entered,hidle])
    have hidle' : u.active = [] := (visit_grown hu).active.trans hidle
    obtain ⟨done',hinv',hend,hvisited⟩ := ih hrest hinv hidle'
    refine ⟨done',hinv',hend,List.forall_mem_cons.mpr ⟨?_,hvisited⟩⟩
    refine (foldlM_grown hrest).visited ?_
    cases fuel with
    | zero => cases hu
    | succ fuel =>
      rcases visit_cases hu with ⟨hactive,-⟩ | ⟨-,hmem,rfl⟩ | ⟨-,-,t,ht,rfl⟩
      · rw [hidle] at hactive
        cases hactive
      · exact hmem
      · exact (foldlM_grown ht).visited List.mem_cons_self

/-- Each node is reported once and lies on a cycle, and each cycle has a reported node in its
component, provided the search starts from every node that has a target. -/
theorem search_exact {fuel : ℕ} {starts : List α} {s : Search α} (h : search next fuel starts = some s) :
    s.reported.Nodup ∧ (∀ a ∈ s.reported, TransGen (Edge next) a a) ∧
      ((∀ a, next a ≠ [] → a ∈ starts) → ∀ a, TransGen (Edge next) a a →
        ∃ b ∈ s.reported, ReflTransGen (Edge next) a b ∧ ReflTransGen (Edge next) b a) := by
  obtain ⟨done,inv,hidle,hvisited⟩ := search_inv h inv_empty rfl
  refine ⟨inv.once,inv.cyclic,fun hstarts a hcycle => inv.settled.reported_of_cycle ?_ hcycle⟩
  obtain ⟨b,hedge,-⟩ := TransGen.head'_iff.mp hcycle
  have hstart : a ∈ starts := hstarts a (List.ne_nil_of_mem hedge)
  exact (inv.left a).mpr ⟨hvisited a hstart,by simp [hidle]⟩

/-! ## Enough fuel -/

def unvisited (nodes : Finset α) (s : Search α) : Finset α := nodes.filter (· ∉ s.visited)

theorem unvisited_le {nodes : Finset α} {s t : Search α} (h : s.visited ⊆ t.visited) :
    (unvisited nodes t).card ≤ (unvisited nodes s).card :=
  Finset.card_le_card (Finset.monotone_filter_right _ fun _ _ hnew hold => hnew (h hold))

theorem unvisited_enter {nodes : Finset α} {s : Search α} {node : α} (hmem : node ∈ nodes)
    (hnew : node ∉ s.visited) : (unvisited nodes (s.enter node)).card < (unvisited nodes s).card := by
  refine Finset.card_lt_card (Finset.ssubset_iff.mpr ⟨node,by simp [unvisited,Search.enter],?_⟩)
  intro a ha
  rcases Finset.mem_insert.mp ha with rfl | ha
  · exact Finset.mem_filter.mpr ⟨hmem,hnew⟩
  · obtain ⟨hin,hnot⟩ := Finset.mem_filter.mp ha
    exact Finset.mem_filter.mpr ⟨hin,fun h => hnot (List.mem_cons_of_mem _ h)⟩

theorem visit_returns {nodes : Finset α} (hclosed : ∀ a ∈ nodes, ∀ b ∈ next a, b ∈ nodes) {fuel : ℕ}
    {s : Search α} {node : α} (hmem : node ∈ nodes) (hfuel : (unvisited nodes s).card < fuel) :
    ∃ s', visit next fuel s node = some s' := by
  induction fuel generalizing s node with
  | zero => exact absurd hfuel (Nat.not_lt_zero _)
  | succ fuel ih =>
    have hloop : ∀ (targets : List α) {t : Search α}, (∀ target ∈ targets, target ∈ nodes) →
        (unvisited nodes t).card < fuel → ∃ t', targets.foldlM (visit next fuel) t = some t' := by
      intro targets
      induction targets with
      | nil => exact fun {t} _ _ => ⟨t,rfl⟩
      | cons target rest ihrest =>
        intro t hall hfuel
        obtain ⟨u,hu⟩ := ih (hall target List.mem_cons_self) hfuel
        obtain ⟨t',ht'⟩ := ihrest (fun other h => hall other (List.mem_cons_of_mem _ h))
          ((unvisited_le (visit_grown hu).visited).trans_lt hfuel)
        exact ⟨t',by rw [List.foldlM_cons,hu]; exact ht'⟩
    rw [visit]
    split
    · exact ⟨_,rfl⟩
    · split
      · exact ⟨_,rfl⟩
      · next hnew =>
        obtain ⟨t,ht⟩ := hloop (next node) (hclosed node hmem)
          (Nat.lt_of_lt_of_le (unvisited_enter hmem hnew) (Nat.le_of_lt_succ hfuel))
        exact ⟨t.leave node,by rw [ht]; rfl⟩

theorem search_returns {nodes : Finset α} (hclosed : ∀ a ∈ nodes, ∀ b ∈ next a, b ∈ nodes) {fuel : ℕ}
    {starts : List α} (hstarts : ∀ a ∈ starts, a ∈ nodes) (hfuel : nodes.card < fuel) :
    ∃ s, search next fuel starts = some s := by
  have hloop : ∀ (rest : List α) (s : Search α), (∀ a ∈ rest, a ∈ nodes) →
      ∃ t, rest.foldlM (visit next fuel) s = some t := by
    intro rest
    induction rest with
    | nil => exact fun s _ => ⟨s,rfl⟩
    | cons start rest ih =>
      intro s hall
      have hcard : (unvisited nodes s).card < fuel := (Finset.card_filter_le ..).trans_lt hfuel
      obtain ⟨u,hu⟩ := visit_returns hclosed (hall start List.mem_cons_self) hcard
      obtain ⟨t,ht⟩ := ih u (fun a h => hall a (List.mem_cons_of_mem _ h))
      exact ⟨t,by rw [List.foldlM_cons,hu]; exact ht⟩
  exact hloop starts .empty hstarts

end DepthFirst
end LatexCore.Foundation
