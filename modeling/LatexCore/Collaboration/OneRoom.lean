import LatexCore.Collaboration.Store
import LatexCore.Foundation.Runs

/-! # One room for a document

A step keeps the actors or spawns one and registers it, and only a call that
does not find its epoch spawns. The live actors of a document stay unique and
the registered epoch of a file never falls exactly as long as no such call comes
for a document that still has a live actor or for an epoch left behind.

The map of registered rooms, the actors that were ever spawned and the clients
on their way into a room. The map has one room for a file, whatever its epoch,
and an actor runs as long as the map or a client holds its handle. An access is
read from the database in one step and used by `room` in a later one.
-/
namespace LatexCore.Collaboration
open Core Foundation

/-! ## The collaboration hub -/

section Hub
/-- The part of an access record that the hub uses. -/
structure Access where
  key : RoomKey
  documentEpoch : ℕ
deriving DecidableEq

/-- A handle names its actor by the channel that both share. -/
structure RoomHandle where
  actor : ℕ
  documentEpoch : ℕ
deriving DecidableEq

inductive Client
  | admitted (access : Access)
  | inRoom (access : Access) (room : RoomHandle)
deriving DecidableEq

structure Hub where
  rooms : RoomKey → Option RoomHandle
  /-- The documents of the actors ever spawned, by actor. -/
  actors : List Access
  clients : Uuid → Option Client
  /-- `paper_collaboration_state`; a missing row is inserted with epoch 1. -/
  documentEpochs : WorkspaceId → ℕ

def Hub.start : Hub := ⟨fun _ => none,[],fun _ => none,fun _ => 1⟩

namespace Hub
variable (h : Hub)

/-- `RoomHandle::spawn` and the registration, unless the recovery fails. -/
def spawn (access : Access) (recovered : Bool) : Hub × Option RoomHandle :=
  if recovered then
    let room : RoomHandle := ⟨h.actors.length,access.documentEpoch⟩
    ({ h with
        actors := h.actors ++ [access]
        rooms := Function.update h.rooms access.key (some room) },some room)
  else (h,none)

/-- `CollaborationHub::room`, which holds the lock of the map throughout. -/
def room (access : Access) (recovered : Bool) : Hub × Option RoomHandle :=
  match h.rooms access.key with
  | some room =>
    if room.documentEpoch = access.documentEpoch then (h,some room)
    else { h with rooms := Function.update h.rooms access.key none }.spawn access recovered
  | none => h.spawn access recovered

/-- `CollaborationHub::epoch_changed`; the epoch only goes into the event of the rooms. -/
def epochChanged (workspaceId : WorkspaceId) : Hub :=
  { h with rooms := fun key => if key.workspaceId = workspaceId then none else h.rooms key }

/-- The handle of the actor is in the map or with a client, so its mailbox is open. -/
def Live (actor : ℕ) : Prop :=
  (∃ key room, h.rooms key = some room ∧ room.actor = actor) ∨
    ∃ id access room, h.clients id = some (.inRoom access room) ∧ room.actor = actor

def registeredEpoch (key : RoomKey) : Option ℕ := (h.rooms key).map RoomHandle.documentEpoch

end Hub

inductive HubLabel
  /-- `collaboration_access` of a new client. -/
  | access (id : Uuid) (key : RoomKey)
  | room (id : Uuid) (recovered : Bool)
  | leave (id : Uuid)
  | epochChanged (workspaceId : WorkspaceId) (documentEpoch : ℕ)
  /-- A restoration commits the next epoch of its paper. -/
  | restore (workspaceId : WorkspaceId)

def Hub.step (h : Hub) : HubLabel → Hub
  | .access id key =>
    match h.clients id with
    | none =>
      let access : Access := ⟨key,h.documentEpochs key.workspaceId⟩
      { h with clients := Function.update h.clients id (some (.admitted access)) }
    | some _ => h
  | .room id recovered =>
    match h.clients id with
    | some (.admitted access) =>
      let r := h.room access recovered
      let client := r.2.map (fun room => .inRoom access room)
      { r.1 with clients := Function.update r.1.clients id client }
    | _ => h
  | .leave id => { h with clients := Function.update h.clients id none }
  | .epochChanged workspaceId _ => h.epochChanged workspaceId
  | .restore workspaceId =>
    let next := h.documentEpochs workspaceId + 1
    { h with documentEpochs := Function.update h.documentEpochs workspaceId next }

def Hub.OneRoom (h : Hub) : Prop :=
  ∀ a b document, h.Live a → h.Live b → h.actors[a]? = some document → h.actors[b]? = some document → a = b

/-- The call spawns an actor for a document that has a live one, or for an epoch that the file has
left behind. -/
def Hub.Forks (h : Hub) : HubLabel → Prop
  | .room id true => ∃ access, h.clients id = some (.admitted access) ∧
      h.registeredEpoch access.key ≠ some access.documentEpoch ∧
      ∃ actor other, h.actors[actor]? = some other ∧ other.key = access.key ∧
        (access.documentEpoch < other.documentEpoch ∨
          other.documentEpoch = access.documentEpoch ∧ h.Live actor)
  | _ => False

end Hub

/-! ## One room for a document -/

variable {h : Hub}

namespace Hub

structure Registered (h : Hub) : Prop where
  map : ∀ key room, h.rooms key = some room → h.actors[room.actor]? = some ⟨key,room.documentEpoch⟩
  client : ∀ id access room, h.clients id = some (.inRoom access room) → room.actor < h.actors.length

def Superseded (h : Hub) (access : Access) : Prop :=
  ∃ actor other, h.actors[actor]? = some other ∧ other.key = access.key ∧
    (access.documentEpoch < other.documentEpoch ∨
      other.documentEpoch = access.documentEpoch ∧ h.Live actor)

inductive Change (h : Hub) (l : HubLabel) (h' : Hub) : Prop
  | keeps (actors : h'.actors = h.actors) (live : ∀ a, h'.Live a → h.Live a)
      (rooms : ∀ key room, h'.rooms key = some room → h.rooms key = some room)
      (clients : ∀ id access room, h'.clients id = some (.inRoom access room) → h.Live room.actor)
      (apart : ¬h.Forks l)
  | spawns (access : Access) (actors : h'.actors = h.actors ++ [access])
      (rooms : h'.rooms = Function.update h.rooms access.key
        (some ⟨h.actors.length,access.documentEpoch⟩))
      (live : ∀ a, h'.Live a → h.Live a ∨ a = h.actors.length)
      (clients : ∀ id c room, h'.clients id = some (.inRoom c room) →
        h.Live room.actor ∨ room.actor = h.actors.length)
      (held : ∀ id c room, h.clients id = some (.inRoom c room) → h'.clients id = some (.inRoom c room))
      (missing : h.registeredEpoch access.key ≠ some access.documentEpoch)
      (forks : h.Forks l ↔ h.Superseded access)

theorem live_of_room {key : RoomKey} {room : RoomHandle} (hr : h.rooms key = some room) :
    h.Live room.actor := Or.inl ⟨key,room,hr,rfl⟩

theorem live_of_client {id : Uuid} {access : Access} {room : RoomHandle}
    (hc : h.clients id = some (.inRoom access room)) : h.Live room.actor :=
  Or.inr ⟨id,access,room,hc,rfl⟩

theorem Registered.live_lt (hi : h.Registered) {a : ℕ} (hl : h.Live a) : a < h.actors.length := by
  rcases hl with ⟨key,room,hr,rfl⟩ | ⟨id,access,room,hc,rfl⟩
  · exact (List.getElem?_eq_some_iff.mp (hi.map key room hr)).1
  · exact hi.client id access room hc

theorem live_mono {h' : Hub} (hrooms : ∀ key room, h'.rooms key = some room → h.rooms key = some room)
    (hclients : ∀ id access room, h'.clients id = some (.inRoom access room) → h.Live room.actor)
    {a : ℕ} (hl : h'.Live a) : h.Live a := by
  rcases hl with ⟨key,room,hr,rfl⟩ | ⟨id,access,room,hc,rfl⟩
  · exact live_of_room (hrooms key room hr)
  · exact hclients id access room hc

/-! ## One step -/

theorem keeps_of (l : HubLabel) {h' : Hub} (hactors : h'.actors = h.actors)
    (hrooms : ∀ key room, h'.rooms key = some room → h.rooms key = some room)
    (hclients : ∀ id access room, h'.clients id = some (.inRoom access room) → h.Live room.actor)
    (hapart : ¬h.Forks l) : h.Change l h' :=
  .keeps hactors (fun _ hl => live_mono hrooms hclients hl) hrooms hclients hapart

theorem keeps_client (l : HubLabel) (id : Uuid) (client : Option Client)
    (hclient : ∀ access room, client = some (.inRoom access room) → h.Live room.actor)
    (hapart : ¬h.Forks l) {rooms : RoomKey → Option RoomHandle}
    (hrooms : ∀ key room, rooms key = some room → h.rooms key = some room) :
    h.Change l { h with rooms := rooms, clients := Function.update h.clients id client } := by
  refine keeps_of l rfl hrooms ?_ hapart
  intro id' access room hc
  simp only [Function.update_apply] at hc
  split at hc
  · exact hclient access room hc
  · exact live_of_client hc

theorem spawns_of (id : Uuid) (access : Access) (hid : h.clients id = some (.admitted access))
    (hmissing : h.registeredEpoch access.key ≠ some access.documentEpoch) :
    h.Change (.room id true) { h with
      actors := h.actors ++ [access]
      rooms := Function.update h.rooms access.key (some ⟨h.actors.length,access.documentEpoch⟩)
      clients := Function.update h.clients id
        (some (.inRoom access ⟨h.actors.length,access.documentEpoch⟩)) } := by
  have hclients : ∀ id' c room, Function.update h.clients id
      (some (.inRoom access ⟨h.actors.length,access.documentEpoch⟩)) id' = some (.inRoom c room) →
      h.Live room.actor ∨ room.actor = h.actors.length := by
    intro id' c room hc
    rw [Function.update_apply] at hc
    split at hc
    · cases hc
      exact Or.inr rfl
    · exact Or.inl (live_of_client hc)
  refine .spawns access rfl rfl ?_ hclients ?_ hmissing ?_
  · rintro a (⟨key,room,hr,rfl⟩ | ⟨id',c,room,hc,rfl⟩)
    · simp only [Function.update_apply] at hr
      split at hr
      · cases hr
        exact Or.inr rfl
      · exact Or.inl (live_of_room hr)
    · exact hclients id' c room hc
  · intro id' c room hc
    have hne : id' ≠ id := by
      rintro rfl
      rw [hid] at hc
      cases hc
    simpa [Function.update_apply,hne] using hc
  · simp only [Forks,hid,Option.some.injEq,Client.admitted.injEq,exists_eq_left',Superseded]
    exact ⟨fun hf => hf.2,fun hs => ⟨hmissing,hs⟩⟩

theorem step_change (h : Hub) (l : HubLabel) : h.Change l (h.step l) := by
  have hsame : ∀ l, ¬h.Forks l → h.Change l h := fun l hl =>
    keeps_of l rfl (fun _ _ hr => hr) (fun _ _ _ hc => live_of_client hc) hl
  cases l with
  | access id key =>
    simp only [Hub.step]
    cases h.clients id with
    | some c => exact hsame _ (by simp [Forks])
    | none => exact keeps_client _ id _ (by simp) (by simp [Forks]) (fun _ _ hr => hr)
  | leave id => exact keeps_client _ id none (by simp) (by simp [Forks]) (fun _ _ hr => hr)
  | restore workspaceId =>
    exact keeps_of _ rfl (fun _ _ hr => hr) (fun _ _ _ hc => live_of_client hc) (by simp [Forks])
  | epochChanged workspaceId documentEpoch =>
    refine keeps_of _ rfl ?_ (fun _ _ _ hc => live_of_client hc) (by simp [Forks])
    intro key room hr
    simp only [Hub.step,Hub.epochChanged] at hr
    split at hr
    · cases hr
    · exact hr
  | room id recovered =>
    have hidle : (∀ access, h.clients id ≠ some (.admitted access)) → ¬h.Forks (.room id recovered) := by
      intro hno hf
      cases recovered with
      | false => exact hf
      | true =>
        obtain ⟨access,hid,_⟩ := hf
        exact hno access hid
    simp only [Hub.step]
    cases hid : h.clients id with
    | none => exact hsame _ (hidle (by simp [hid]))
    | some c =>
      cases c with
      | inRoom access room => exact hsame _ (hidle (by simp [hid]))
      | admitted access =>
        simp only [Hub.room]
        cases hr : h.rooms access.key with
        | none =>
          cases recovered with
          | false => exact keeps_client _ id none (by simp) (by simp [Forks]) (fun _ _ hr => hr)
          | true => exact spawns_of id access hid (by simp [registeredEpoch,hr])
        | some room =>
          by_cases he : room.documentEpoch = access.documentEpoch
          · simp only [he,if_true,Option.map_some]
            refine keeps_client _ id _ ?_ ?_ (fun _ _ hr => hr)
            · rintro access' room' heq
              cases heq
              exact live_of_room hr
            · intro hf
              cases recovered with
              | false => exact hf
              | true =>
                obtain ⟨access',hid',hne,_⟩ := hf
                rw [hid] at hid'
                cases hid'
                exact hne (by simp [registeredEpoch,hr,he])
          · simp only [he,if_false]
            cases recovered with
            | false =>
              refine keeps_client _ id none (by simp) (by simp [Forks]) ?_
              intro key room' hroom
              simp only [Hub.spawn,Bool.false_eq_true,if_false,Function.update_apply] at hroom
              split at hroom
              · cases hroom
              · exact hroom
            | true =>
              have hspawn := spawns_of id access hid (by simpa [registeredEpoch,hr] using he)
              simpa [Hub.spawn] using hspawn

/-! ## Invariants -/

theorem Registered.change {l : HubLabel} {h' : Hub} (hi : h.Registered) (hc : h.Change l h') :
    h'.Registered := by
  cases hc with
  | keeps actors live rooms clients =>
    refine ⟨?_,?_⟩
    · intro key room hr
      exact actors ▸ hi.map key room (rooms key room hr)
    · intro id access room hcl
      exact actors ▸ hi.live_lt (clients id access room hcl)
  | spawns access actors rooms live clients =>
    refine ⟨?_,?_⟩
    · intro key room hr
      rw [rooms,Function.update_apply] at hr
      rw [actors]
      split at hr
      · next hkey =>
        cases hr
        subst hkey
        simp
      · have hold := hi.map key room hr
        rw [List.getElem?_append_left (List.getElem?_eq_some_iff.mp hold).1]
        exact hold
    · intro id c room hcl
      rw [actors,List.length_append,List.length_singleton]
      rcases clients id c room hcl with hl | heq
      · exact Nat.lt_succ_of_lt (hi.live_lt hl)
      · omega

theorem actors_prefix {l : HubLabel} {h' : Hub} (hc : h.Change l h') : h.actors <+: h'.actors := by
  cases hc with
  | keeps actors => rw [actors]
  | spawns access actors => rw [actors]; exact List.prefix_append _ _

def Latest (h : Hub) : Prop :=
  ∀ key room, h.rooms key = some room → ∀ other ∈ h.actors, other.key = key →
    other.documentEpoch ≤ room.documentEpoch

theorem OneRoom.change {l : HubLabel} {h' : Hub} (ho : h.OneRoom) (hi : h.Registered)
    (hc : h.Change l h') (hl : ¬h.Forks l) : h'.OneRoom := by
  cases hc with
  | keeps actors live =>
    intro a b document ha hb hda hdb
    rw [actors] at hda hdb
    exact ho a b document (live a ha) (live b hb) hda hdb
  | spawns access actors rooms live clients held missing forks =>
    have hnone : ¬h.Superseded access := fun hs => hl (forks.mpr hs)
    have hnew : ∀ a, h.Live a → h'.actors[a]? ≠ some access := by
      intro a ha hget
      rw [actors,List.getElem?_append_left (hi.live_lt ha)] at hget
      exact hnone ⟨a,access,hget,rfl,Or.inr ⟨rfl,ha⟩⟩
    have hlast : h'.actors[h.actors.length]? = some access := by rw [actors]; simp
    intro a b document ha hb hda hdb
    rcases live a ha with ha | rfl
    · rcases live b hb with hb | rfl
      · rw [actors,List.getElem?_append_left (hi.live_lt ha)] at hda
        rw [actors,List.getElem?_append_left (hi.live_lt hb)] at hdb
        exact ho a b document ha hb hda hdb
      · rw [hlast] at hdb
        exact absurd (hda.trans hdb.symm) (hnew a ha)
    · rcases live b hb with hb | rfl
      · rw [hlast] at hda
        exact absurd (hdb.trans hda.symm) (hnew b hb)
      · rfl

theorem Latest.change {l : HubLabel} {h' : Hub} (hla : h.Latest) (hc : h.Change l h')
    (hl : ¬h.Forks l) : h'.Latest := by
  intro key room hr other hother hkey
  cases hc with
  | keeps actors live rooms => exact hla key room (rooms key room hr) other (actors ▸ hother) hkey
  | spawns access actors rooms live clients held missing forks =>
    rw [rooms,Function.update_apply] at hr
    rw [actors] at hother
    rcases List.mem_append.mp hother with hother | hother
    · split at hr
      · next hk =>
        cases hr
        by_contra hlt
        obtain ⟨actor,hget⟩ := List.mem_iff_getElem?.mp hother
        exact hl (forks.mpr ⟨actor,other,hget,hkey.trans hk,Or.inl (by simpa using hlt)⟩)
      · exact hla key room hr other hother hkey
    · simp only [List.mem_singleton] at hother
      subst hother
      rw [if_pos hkey.symm] at hr
      cases hr
      exact le_refl _

theorem Forks.breaks {l : HubLabel} {h' : Hub} (hi : h.Registered) (hc : h.Change l h')
    (hl : h.Forks l) :
    ¬h'.OneRoom ∨ ∃ key e, h'.registeredEpoch key = some e ∧
      ∃ other ∈ h.actors, other.key = key ∧ e < other.documentEpoch := by
  cases hc with
  | keeps actors live rooms clients apart => exact absurd hl apart
  | spawns access actors rooms live clients held missing forks =>
    obtain ⟨actor,other,hget,hkey,hlt | ⟨heq,hlive⟩⟩ := forks.mp hl
    · refine Or.inr ⟨access.key,access.documentEpoch,?_,other,List.mem_of_getElem? hget,hkey,hlt⟩
      simp [registeredEpoch,rooms]
    · refine Or.inl ?_
      intro ho
      have hother : other = access := by
        cases other
        cases access
        simp_all
      have hlt : actor < h.actors.length := hi.live_lt hlive
      have hkept : h'.Live actor := by
        rcases hlive with ⟨key,room,hr,rfl⟩ | ⟨id,c,room,hcl,rfl⟩
        · -- A registered actor of the document would have been found by the call.
          have hmap := hi.map key room hr
          rw [hget,hother] at hmap
          cases hmap
          exact absurd (by simp [registeredEpoch,hr]) missing
        · exact live_of_client (held id c room hcl)
      have hnew : h'.Live h.actors.length := by
        have hreg : h'.rooms access.key = some ⟨h.actors.length,access.documentEpoch⟩ := by
          simp [rooms]
        exact live_of_room hreg
      have hsame := ho actor h.actors.length access hkept hnew
        (by rw [actors,List.getElem?_append_left hlt,hget,hother]) (by simp [actors])
      omega

/-! ## Runs -/

theorem Registered.start : Hub.start.Registered := by
  constructor <;> simp [Hub.start]

theorem registered_run (labels : List HubLabel) : (run Hub.step .start labels).Registered :=
  run_invariant Registered (fun h l hi => hi.change (step_change h l)) Registered.start labels

theorem run_actors_prefix (h : Hub) (labels : List HubLabel) :
    h.actors <+: (run Hub.step h labels).actors :=
  run_relates (fun h h' : Hub => h.actors <+: h'.actors) (fun _ => List.prefix_refl _)
    List.IsPrefix.trans (fun h l => actors_prefix (step_change h l)) h labels

theorem was_registered (labels : List HubLabel) {other : Access}
    (ho : other ∈ (run Hub.step .start labels).actors) :
    ∃ pre post, labels = pre ++ post ∧
      (run Hub.step .start pre).registeredEpoch other.key = some other.documentEpoch := by
  induction labels using List.reverseRecOn with
  | nil => simp [Hub.start] at ho
  | append_singleton labels l ih =>
    have hearlier : other ∈ (run Hub.step .start labels).actors → ∃ pre post, labels ++ [l] = pre ++ post ∧
        (run Hub.step .start pre).registeredEpoch other.key = some other.documentEpoch := by
      intro hold
      obtain ⟨pre,post,rfl,hreg⟩ := ih hold
      exact ⟨pre,post ++ [l],by simp,hreg⟩
    have hc := step_change (run Hub.step .start labels) l
    rw [run_concat] at ho
    cases hc with
    | keeps actors => exact hearlier (actors ▸ ho)
    | spawns access actors rooms =>
      rw [actors] at ho
      rcases List.mem_append.mp ho with hold | hnew
      · exact hearlier hold
      · simp only [List.mem_singleton] at hnew
        subst hnew
        refine ⟨labels ++ [l],[],by simp,?_⟩
        rw [run_concat]
        simp [registeredEpoch,rooms]

end Hub

/-- Every state of a run has at most one live actor for each document, and the registered epoch of
a file never falls, exactly when no call forks. -/
theorem one_room_iff (labels : List HubLabel) :
    ((∀ pre post, labels = pre ++ post → (run Hub.step .start pre).OneRoom) ∧
        ∀ pre mid post, labels = pre ++ mid ++ post → ∀ key e e',
          (run Hub.step .start pre).registeredEpoch key = some e →
          (run Hub.step .start (pre ++ mid)).registeredEpoch key = some e' → e ≤ e') ↔
      Along Hub.step (fun h l => ¬h.Forks l) .start labels := by
  constructor
  · rintro ⟨hone,hmono⟩
    refine along_iff.mpr ?_
    rintro pre l post rfl hforks
    have hc := Hub.step_change (run Hub.step .start pre) l
    rcases Hub.Forks.breaks (Hub.registered_run pre) hc hforks with
      hbroken | ⟨key,e,hreg,other,hother,rfl,hlt⟩
    · rw [← run_concat Hub.step] at hbroken
      exact hbroken (hone (pre ++ [l]) post (by simp))
    · obtain ⟨first,rest,rfl,hfirst⟩ := Hub.was_registered pre hother
      rw [← run_concat Hub.step] at hreg
      have hle := hmono first (rest ++ [l]) post (by simp) _ _ _ hfirst (by simpa using hreg)
      omega
  · intro hguard
    have hgood : ∀ pre post, labels = pre ++ post →
        (run Hub.step .start pre).Registered ∧ (run Hub.step .start pre).OneRoom ∧
          (run Hub.step .start pre).Latest := by
      rintro pre post rfl
      have hpre := (along_append.mp hguard).1
      refine hpre.invariant (fun h => h.Registered ∧ h.OneRoom ∧ h.Latest) ?_ ?_
      · rintro h l ⟨hi,ho,hla⟩ hl
        have hc := Hub.step_change h l
        exact ⟨hi.change hc,ho.change hi hc hl,hla.change hc hl⟩
      · refine ⟨.start,?_,?_⟩
        · intro a b document _ _ hda
          simp [Hub.start] at hda
        · intro key room hr
          simp [Hub.start] at hr
    refine ⟨fun pre post hp => (hgood pre post hp).2.1,?_⟩
    intro pre mid post hsplit key e e' he he'
    obtain ⟨hi,_,_⟩ := hgood pre (mid ++ post) (by simp [hsplit])
    obtain ⟨_,_,hla⟩ := hgood (pre ++ mid) post hsplit
    simp only [Hub.registeredEpoch,Option.map_eq_some_iff] at he he'
    obtain ⟨room,hroom,rfl⟩ := he
    obtain ⟨room',hroom',rfl⟩ := he'
    have hmem : (⟨key,room.documentEpoch⟩ : Access) ∈ (run Hub.step .start (pre ++ mid)).actors := by
      rw [run_append]
      exact (Hub.run_actors_prefix _ mid).subset (List.mem_of_getElem? (hi.map key room hroom))
    exact hla key room' hroom' _ hmem rfl

/-! ## A stale access -/

def sampleKey : RoomKey := ⟨1,2⟩

/-- Client 1 reads its access before a restoration and enters after client 2, who has the next
epoch; then client 3 enters with that epoch. -/
def staleAccess : List HubLabel :=
  [.access 1 sampleKey,.restore 1,.epochChanged 1 2,.access 2 sampleKey,.room 2 true,.room 1 true,
    .access 3 sampleKey,.room 3 true]

/-- The registered epoch falls from 2 to 1, and then two actors of epoch 2 are live. -/
theorem stale_access_forks :
    (run Hub.step .start (staleAccess.take 5)).registeredEpoch sampleKey = some 2 ∧
      (run Hub.step .start (staleAccess.take 6)).registeredEpoch sampleKey = some 1 ∧
      ¬(run Hub.step .start staleAccess).OneRoom := by
  refine ⟨by decide,by decide,?_⟩
  intro ho
  have hheld : (run Hub.step .start staleAccess).Live 0 :=
    Or.inr ⟨2,⟨sampleKey,2⟩,⟨0,2⟩,by decide,rfl⟩
  have hmapped : (run Hub.step .start staleAccess).Live 2 :=
    Or.inl ⟨sampleKey,⟨2,2⟩,by decide,rfl⟩
  have heq := ho 0 2 ⟨sampleKey,2⟩ hheld hmapped (by decide) (by decide)
  omega

end LatexCore.Collaboration
