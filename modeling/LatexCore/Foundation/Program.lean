import LatexCore.Foundation.Runs
import Mathlib.Logic.Function.Basic

/-! # Programs of atomic calls

A program is a tree of calls to a shared store, with one continuation for each
reply. Clients run their programs on one store, call by call, in any order; a
client may vanish in the middle of a call, with or without its effect. A program
holds in a store when its calls keep an invariant of the store and only let it
grow, whatever the other clients do in between, and its result meets a
postcondition. The rules below leave one obligation for each call.
-/
namespace LatexCore.Foundation

inductive Program (Call : Type) (Reply : Call → Type) (α : Type)
  | done (result : α)
  | call (request : Call) (next : Reply request → Program Call Reply α)

namespace Program
variable {Call : Type} {Reply : Call → Type} {α β : Type}

protected def bind : Program Call Reply α → (α → Program Call Reply β) → Program Call Reply β
  | done a, k => k a
  | call request next, k => call request (fun reply => (next reply).bind k)

instance : Monad (Program Call Reply) where
  pure := done
  bind := Program.bind

def perform (request : Call) : Program Call Reply (Reply request) := call request done

@[simp] theorem done_bind (a : α) (k : α → Program Call Reply β) : (done a >>= k) = k a := rfl
@[simp] theorem call_bind (request : Call) (next : Reply request → Program Call Reply α)
    (k : α → Program Call Reply β) :
    (call request next >>= k) = call request (fun reply => next reply >>= k) := rfl

def Within : Program Call Reply α → ℕ → Prop
  | done _, _ => True
  | call _ next, n => ∃ m, n = m + 1 ∧ ∀ reply, (next reply).Within m

theorem within_zero {p : Program Call Reply α} (h : p.Within 0) : ∃ a, p = done a := by
  cases p with
  | done a => exact ⟨a,rfl⟩
  | call request next =>
    obtain ⟨m,hm,_⟩ := h
    omega

def Uses (ok : Call → Prop) : Program Call Reply α → Prop
  | done _ => True
  | call request next => ok request ∧ ∀ reply, (next reply).Uses ok

theorem Uses.bind {ok : Call → Prop} {p : Program Call Reply α} {k : α → Program Call Reply β}
    (h : p.Uses ok) (hk : ∀ a, (k a).Uses ok) : (p >>= k).Uses ok := by
  induction p with
  | done a => exact hk a
  | call request next ih => exact ⟨h.1,fun reply => ih reply (h.2 reply)⟩

variable {σ : Type}

/-- The run of a program with nobody else on the store. -/
def alone (act : σ → (c : Call) → σ × Reply c) : Program Call Reply α → σ → σ × α
  | done a, s => (s,a)
  | call request next, s => (next (act s request).2).alone act (act s request).1

def requests (act : σ → (c : Call) → σ × Reply c) : Program Call Reply α → σ → List Call
  | done _, _ => []
  | call request next, s => request :: (next (act s request).2).requests act (act s request).1

theorem Uses.alone_relates {act : σ → (c : Call) → σ × Reply c} {ok : Call → Prop}
    (rel : σ → σ → Prop) (hrefl : ∀ s, rel s s) (htrans : ∀ {a b c}, rel a b → rel b c → rel a c)
    (hact : ∀ s request, ok request → rel s (act s request).1) {p : Program Call Reply α}
    (h : p.Uses ok) (s : σ) : rel s (p.alone act s).1 := by
  induction p generalizing s with
  | done a => exact hrefl s
  | call request next ih => exact htrans (hact s request h.1) (ih _ (h.2 _) _)

theorem Uses.requests (act : σ → (c : Call) → σ × Reply c) {ok : Call → Prop}
    {p : Program Call Reply α} (h : p.Uses ok) (s : σ) : ∀ request ∈ p.requests act s, ok request := by
  induction p generalizing s with
  | done a =>
    intro request hrequest
    cases hrequest
  | call request next ih => exact List.forall_mem_cons.mpr ⟨h.1,ih _ (h.2 _) _⟩

end Program

/-- What the programs of a store rely on, and what each of them guarantees to the others. -/
structure Discipline {σ Call : Type} {Reply : Call → Type} (act : σ → (c : Call) → σ × Reply c) where
  inv : σ → Prop
  grows : σ → σ → Prop
  allowed : Call → Prop
  refl : ∀ s, grows s s
  trans : ∀ {s t u}, grows s t → grows t u → grows s u

namespace Discipline
variable {σ Call : Type} {Reply : Call → Type} {act : σ → (c : Call) → σ × Reply c}
variable (d : Discipline act) {α β ε : Type}

def Holds (post : σ → α → Prop) : Program Call Reply α → σ → Prop
  | .done a, s => post s a
  | .call request next, s => ∀ t, d.grows s t → d.inv t → d.allowed request →
    d.inv (act t request).1 ∧ d.grows t (act t request).1 ∧
      Holds post (next (act t request).2) (act t request).1

variable {d} {post : σ → α → Prop}

theorem Holds.of_grows (hstable : ∀ s t a, d.grows s t → post s a → post t a)
    {p : Program Call Reply α} {s t : σ} (h : d.Holds post p s) (hgrows : d.grows s t) :
    d.Holds post p t := by
  cases p with
  | done a => exact hstable s t a hgrows h
  | call request next => exact fun u hu => h u (d.trans hgrows hu)

theorem Holds.imp {post' : σ → α → Prop} {p : Program Call Reply α} {s : σ} (h : d.Holds post p s)
    (himp : ∀ t a, d.grows s t → post t a → post' t a) : d.Holds post' p s := by
  induction p generalizing s with
  | done a => exact himp s a (d.refl s) h
  | call request next ih =>
    intro t hgrows hinv hallowed
    obtain ⟨hinv',hgrows',hnext⟩ := h t hgrows hinv hallowed
    refine ⟨hinv',hgrows',ih _ hnext ?_⟩
    intro u a hu ha
    exact himp u a (d.trans hgrows (d.trans hgrows' hu)) ha

theorem Holds.bind {post : σ → β → Prop} {p : Program Call Reply α}
    {k : α → Program Call Reply β} {s : σ} (h : d.Holds (fun t a => d.Holds post (k a) t) p s) :
    d.Holds post (p >>= k) s := by
  induction p generalizing s with
  | done a => exact h
  | call request next ih =>
    intro t hgrows hinv hallowed
    obtain ⟨hinv',hgrows',hnext⟩ := h t hgrows hinv hallowed
    exact ⟨hinv',hgrows',ih _ hnext⟩

/-- A failure ends a fallible program, a success goes on with its value. -/
theorem Holds.bindExcept {post : σ → Except ε β → Prop} {p : ExceptT ε (Program Call Reply) α}
    {k : α → ExceptT ε (Program Call Reply) β} {s : σ}
    (h : d.Holds (fun t r => match r with
      | .ok a => d.Holds post (k a).run t
      | .error e => post t (.error e)) p.run s) : d.Holds post (p >>= k).run s := by
  apply Holds.bind
  apply h.imp
  intro t r _ hr
  cases r with
  | ok a => exact hr
  | error e => exact hr

theorem Holds.alone {p : Program Call Reply α} {s : σ} (h : d.Holds post p s) (hinv : d.inv s)
    (hallowed : ∀ request ∈ p.requests act s, d.allowed request) :
    d.inv (p.alone act s).1 ∧ d.grows s (p.alone act s).1 ∧
      post (p.alone act s).1 (p.alone act s).2 := by
  induction p generalizing s with
  | done a => exact ⟨hinv,d.refl s,h⟩
  | call request next ih =>
    obtain ⟨hinv',hgrows,hnext⟩ := h s (d.refl s) hinv (hallowed request (List.mem_cons_self ..))
    obtain ⟨hfinal,hgrows',hpost⟩ :=
      ih _ hnext hinv' (fun r hr => hallowed r (List.mem_cons_of_mem _ hr))
    exact ⟨hfinal,d.trans hgrows hgrows',hpost⟩

end Discipline

structure Clients (σ ι : Type) (Call : Type) (Reply : Call → Type) (α : Type) where
  store : σ
  programs : ι → Option (Program Call Reply α)

inductive ClientLabel (ι β : Type)
  | start (client : ι) (operation : β)
  | step (client : ι)
  | crash (client : ι) (performed : Bool)
deriving DecidableEq

def ClientLabel.isStepOf {ι β : Type} [DecidableEq ι] (client : ι) : ClientLabel ι β → Bool
  | .step other => other = client
  | _ => false

namespace Clients
variable {σ ι Call α β : Type} {Reply : Call → Type} [DecidableEq ι]

def step (act : σ → (c : Call) → σ × Reply c) (code : β → Program Call Reply α)
    (w : Clients σ ι Call Reply α) : ClientLabel ι β → Clients σ ι Call Reply α
  | .start client operation =>
    if (w.programs client).isSome then w
    else { w with programs := Function.update w.programs client (some (code operation)) }
  | .step client =>
    match w.programs client with
    | some (.call request next) =>
      let result := act w.store request
      ⟨result.1,Function.update w.programs client (some (next result.2))⟩
    | _ => w
  | .crash client performed =>
    match w.programs client with
    | some (.call request _) =>
      let store := if performed then (act w.store request).1 else w.store
      ⟨store,Function.update w.programs client none⟩
    | _ => w

theorem step_call {act : σ → (c : Call) → σ × Reply c} {code : β → Program Call Reply α}
    {w : Clients σ ι Call Reply α} {client : ι} {request : Call}
    {next : Reply request → Program Call Reply α}
    (h : w.programs client = some (.call request next)) :
    w.step act code (.step client) = ⟨(act w.store request).1,
      Function.update w.programs client (some (next (act w.store request).2))⟩ := by
  simp [step,h]

theorem start_idle {act : σ → (c : Call) → σ × Reply c} {code : β → Program Call Reply α}
    {w : Clients σ ι Call Reply α} {client : ι} {operation : β} (h : w.programs client = none) :
    (w.step act code (.start client operation)).programs client = some (code operation) := by
  simp [step,h]

omit [DecidableEq ι] in
def nextCall (w : Clients σ ι Call Reply α) (client : ι) : List Call :=
  match w.programs client with
  | some (.call request _) => [request]
  | _ => []

omit [DecidableEq ι] in
def calls (w : Clients σ ι Call Reply α) : ClientLabel ι β → List Call
  | .start _ _ => []
  | .step client => w.nextCall client
  | .crash client performed => if performed then w.nextCall client else []

variable {act : σ → (c : Call) → σ × Reply c} (d : Discipline act) {code : β → Program Call Reply α}

/-- The store is sound, and so is what every client has left to run. -/
def Inv (w : Clients σ ι Call Reply α) : Prop :=
  d.inv w.store ∧ ∀ i p, w.programs i = some p → d.Holds (fun _ _ => True) p w.store

variable {d}

theorem inv_step (hcode : ∀ operation s, d.inv s → d.Holds (fun _ _ => True) (code operation) s)
    {w : Clients σ ι Call Reply α} {label : ClientLabel ι β} (hinv : Inv d w)
    (hallowed : ∀ c ∈ w.calls label, d.allowed c) :
    Inv d (w.step act code label) ∧ d.grows w.store (w.step act code label).store := by
  have hothers {t : σ} (hgrows : d.grows w.store t) {i : ι} {p : Program Call Reply α}
      (hp : w.programs i = some p) : d.Holds (fun _ _ => True) p t :=
    (hinv.2 i p hp).of_grows (fun _ _ _ _ _ => trivial) hgrows
  cases label with
  | start client operation =>
    simp only [step]
    split
    · exact ⟨hinv,d.refl _⟩
    · refine ⟨⟨hinv.1,?_⟩,d.refl _⟩
      intro i p hp
      dsimp only at hp ⊢
      by_cases hi : i = client
      · subst hi
        rw [Function.update_self,Option.some.injEq] at hp
        exact hp ▸ hcode operation _ hinv.1
      · rw [Function.update_of_ne hi] at hp
        exact hinv.2 i p hp
  | step client =>
    simp only [step]
    split
    · next request next hp =>
      have hcall : d.allowed request := hallowed request (by simp [calls,nextCall,hp])
      obtain ⟨hinv',hgrows,hnext⟩ := hinv.2 client _ hp w.store (d.refl _) hinv.1 hcall
      refine ⟨⟨hinv',?_⟩,hgrows⟩
      intro i p hi
      dsimp only at hi ⊢
      by_cases he : i = client
      · subst he
        rw [Function.update_self,Option.some.injEq] at hi
        exact hi ▸ hnext
      · rw [Function.update_of_ne he] at hi
        exact hothers hgrows hi
    · exact ⟨hinv,d.refl _⟩
  | crash client performed =>
    simp only [step]
    split
    · next request next hp =>
      have hstore : d.inv (if performed then (act w.store request).1 else w.store) ∧
          d.grows w.store (if performed then (act w.store request).1 else w.store) := by
        cases performed with
        | false => exact ⟨hinv.1,d.refl _⟩
        | true =>
          have hcall : d.allowed request := hallowed request (by simp [calls,nextCall,hp])
          obtain ⟨hinv',hgrows,_⟩ := hinv.2 client _ hp w.store (d.refl _) hinv.1 hcall
          exact ⟨hinv',hgrows⟩
      refine ⟨⟨hstore.1,?_⟩,hstore.2⟩
      intro i p hi
      dsimp only at hi ⊢
      by_cases he : i = client
      · subst he
        rw [Function.update_self] at hi
        cases hi
      · rw [Function.update_of_ne he] at hi
        exact hothers hstore.2 hi
    · exact ⟨hinv,d.refl _⟩

def Allowed (d : Discipline act) (code : β → Program Call Reply α) :
    Clients σ ι Call Reply α → List (ClientLabel ι β) → Prop :=
  Along (step act code) (fun w label => ∀ c ∈ w.calls label, d.allowed c)

theorem inv_run (hcode : ∀ operation s, d.inv s → d.Holds (fun _ _ => True) (code operation) s)
    {w : Clients σ ι Call Reply α} {labels : List (ClientLabel ι β)}
    (hallowed : Allowed d code w labels) (hinv : Inv d w) :
    Inv d (run (step act code) w labels) :=
  hallowed.invariant (Inv d) (fun _ _ hinv hcalls => (inv_step hcode hinv hcalls).1) hinv

theorem follow_step (hcode : ∀ operation s, d.inv s → d.Holds (fun _ _ => True) (code operation) s)
    {post : σ → α → Prop} (hstable : ∀ s t a, d.grows s t → post s a → post t a)
    {w : Clients σ ι Call Reply α} {label : ClientLabel ι β} {i : ι} {p : Program Call Reply α}
    {n : ℕ} (hinv : Inv d w) (hallowed : ∀ c ∈ w.calls label, d.allowed c)
    (hp : w.programs i = some p) (hpost : d.Holds post p w.store)
    (hstay : ∀ performed, label ≠ .crash i performed) (hwithin : p.Within n) :
    ∃ q, (w.step act code label).programs i = some q ∧
      d.Holds post q (w.step act code label).store ∧
      ∃ m, q.Within m ∧ (label = .step i → m = n - 1) ∧ (label ≠ .step i → m = n) := by
  have hgrows := (inv_step hcode hinv hallowed).2
  by_cases hown : label = .step i
  · subst hown
    cases p with
    | done a =>
      have hsame : w.step act code (.step i) = w := by simp [step,hp]
      rw [hsame]
      exact ⟨.done a,hp,hpost,n - 1,trivial,fun _ => rfl,fun h => absurd rfl h⟩
    | call request next =>
      obtain ⟨m,rfl,hnext⟩ := hwithin
      have hcall : d.allowed request := hallowed request (by simp [calls,nextCall,hp])
      obtain ⟨_,_,hrest⟩ := hpost w.store (d.refl _) hinv.1 hcall
      simp only [step,hp]
      exact ⟨_,Function.update_self ..,hrest,m,hnext _,fun _ => rfl,fun h => absurd rfl h⟩
  · refine ⟨p,?_,hpost.of_grows hstable hgrows,n,hwithin,fun h => absurd h hown,fun _ => rfl⟩
    cases label with
    | start client operation =>
      simp only [step]
      split
      · exact hp
      · next hnone =>
        have hne : i ≠ client := by
          rintro rfl
          simp [hp] at hnone
        exact (Function.update_of_ne hne ..).trans hp
    | step client =>
      have hne : i ≠ client := fun he => hown (he ▸ rfl)
      simp only [step]
      split
      · exact (Function.update_of_ne hne ..).trans hp
      · exact hp
    | crash client performed =>
      have hne : i ≠ client := by
        rintro rfl
        exact hstay performed rfl
      simp only [step]
      split
      · exact (Function.update_of_ne hne ..).trans hp
      · exact hp

theorem follow_run (hcode : ∀ operation s, d.inv s → d.Holds (fun _ _ => True) (code operation) s)
    {post : σ → α → Prop} (hstable : ∀ s t a, d.grows s t → post s a → post t a) {i : ι}
    {labels : List (ClientLabel ι β)} (hstay : ∀ performed, ClientLabel.crash i performed ∉ labels)
    {w : Clients σ ι Call Reply α} {p : Program Call Reply α} {n : ℕ} (hinv : Inv d w)
    (hallowed : Allowed d code w labels) (hp : w.programs i = some p)
    (hpost : d.Holds post p w.store) (hwithin : p.Within n)
    (hsteps : n ≤ labels.countP (ClientLabel.isStepOf i)) :
    ∃ a, (run (step act code) w labels).programs i = some (.done a) ∧
      post (run (step act code) w labels).store a := by
  induction labels generalizing w p n with
  | nil =>
    rw [List.countP_nil,Nat.le_zero] at hsteps
    subst hsteps
    obtain ⟨a,rfl⟩ := Program.within_zero hwithin
    exact ⟨a,hp,hpost⟩
  | cons label rest ih =>
    have hhead (performed : Bool) : label ≠ .crash i performed :=
      fun he => hstay performed (he ▸ List.mem_cons_self ..)
    have htail (performed : Bool) : ClientLabel.crash i performed ∉ rest :=
      fun hm => hstay performed (List.mem_cons_of_mem _ hm)
    obtain ⟨q,hq,hq',m,hm,hown,hother⟩ :=
      follow_step hcode hstable hinv hallowed.1 hp hpost hhead hwithin
    apply ih htail (inv_step hcode hinv hallowed.1).1 hallowed.2 hq hq' hm
    by_cases he : label = .step i
    · rw [hown he]
      subst he
      rw [List.countP_cons_of_pos (by simp [ClientLabel.isStepOf])] at hsteps
      omega
    · rw [hother he]
      rw [List.countP_cons_of_neg] at hsteps
      · exact hsteps
      · cases label with
        | step client =>
          intro hstep
          exact he (congrArg ClientLabel.step (of_decide_eq_true hstep))
        | start client operation => exact Bool.false_ne_true
        | crash client performed => exact Bool.false_ne_true

end Clients
end LatexCore.Foundation
