import Horsie.Account.Deadlock
import Horsie.Session.Titled

/-!
# Whether the registry and the sessions call a session the same

A session is named in the registry of its supervisor and titled on its own root entry. A title that
the session asks for is written there and then here. A name that a person gives is written by the
supervisor at once and told the session only where it is resident: behind whatever is in its mailbox
already. So the two agree once all is handled as long as every name a person gives finds its session
resident, and neither waiting for the supervisor nor about to (`World.Heeds`).
-/

namespace Horsie.Account

open Lib Session

/-! ## What is sent -/

/-- A handler that leaves alone what the session is called. -/
def Handler.Plain (h : Handler) : Prop := ∀ s, LeavesTitle s.forest.root (h s)

namespace SessionCommand

def Plain : SessionCommand → Prop
  | .create _ _ message provision => provision.Plain ∧ ∀ m ∈ message, m.advance.Plain
  | .userMessage m => m.advance.Plain
  | .other handler => handler.Plain
  | .setTitle _ | .titleSet _ | .prepareOffload | .delete => True

def tells : SessionCommand → Bool
  | .create _ _ _ _ | .titleSet _ => true
  | .userMessage _ | .setTitle _ | .prepareOffload | .delete | .other _ => false

/-- Whether one of the two waits for the other over this. -/
def stalls (s : SessionState) (c : SessionCommand) : Bool := c.isRequest || (c.asks s).isSome

end SessionCommand

def SupervisorCommand.Plain : SupervisorCommand → Prop
  | .create _ _ _ message provision => provision.Plain ∧ ∀ m ∈ message, m.advance.Plain
  | .userMessage _ m => m.advance.Plain
  | .relay _ handler => handler.Plain
  | .delete _ | .tick | .shutdown | .sessionStatusChanged _ _ | .renameSession _ _
  | .setSessionTitle _ _ | .publishSessionTitle _ _ => True

/-- Only the supervisor tells a session its name, and only a title is recorded as one. -/
def Label.Plain : Label → Prop
  | .command c => c.Plain
  | .send _ c => c.Plain ∧ c.tells = false
  | .supervise _ | .proceed | .session _ => True

namespace World

def next (w : World) : Option SupervisorCommand :=
  match w.phase with
  | .idle => w.inbox.head?
  | .waiting _ | .answered _ _ => none

/-- A session is created under an id that was just minted. -/
def Minted (w : World) : Label → Prop
  | .supervise _ =>
    match w.next with
    | some (.create id _ _ _ _) =>
      (w.registry.lookup id).isNone = true ∧ (w.sessions id).state.spec.isNone = true ∧
        (w.sessions id).mailbox.isEmpty = true ∧ (w.sessions id).asking.isNone = true
    | _ => True
  | .command _ | .send _ _ | .proceed | .session _ => True

end World

/-! ## Who named a session -/

/-- Who gave a session the name it has. -/
inductive Giver
  | person
  | tool
  | firstMessage
deriving DecidableEq

/-- Who named each session. -/
abbrev Givers := String → Option Giver

namespace World

def namedBy (w : World) (g : Givers) : SupervisorCommand → Givers
  | .create id _ name _ _ => Function.update g id (name.map fun _ => .person)
  | .setSessionTitle id name =>
    match normalizeSessionTitle name with
    | .ok _ => if w.knows id then Function.update g id (some .person) else g
    | .error _ => g
  | .renameSession id _ =>
    if w.knows id then
      match (w.sessions id).asking with
      | some (.userMessage _) => Function.update g id (some .firstMessage)
      | some _ => Function.update g id (some .tool)
      | none => g
    else g
  | .userMessage _ _ | .relay _ _ | .delete _ | .tick | .shutdown | .sessionStatusChanged _ _
  | .publishSessionTitle _ _ => g

def named (w : World) (l : Label) (_ : World) (g : Givers) : Givers :=
  match l with
  | .supervise _ =>
    match w.next with
    | some c => w.namedBy g c
    | none => g
  | .command _ | .send _ _ | .proceed | .session _ => g

end World

/-- An account, with who named each of its sessions. -/
def titling (timeout : ℕ) : System (World × Givers) Label :=
  ((account timeout).restrict fun w l => l.Plain ∧ w.Minted l).withHistory World.named fun _ => none

namespace World

/-- The supervisor and a session have handled all they were sent, and the session is loaded. -/
structure Settled (w : World) (id : String) : Prop where
  inbox : w.inbox = []
  phase : w.phase = .idle
  mailbox : (w.sessions id).mailbox = []
  asking : (w.sessions id).asking = none
  loaded : w.resident id = true

/-- The registry calls a settled session what the session is titled. -/
def Agrees (w : World) : Prop :=
  ∀ id, w.Settled id → ∀ r ∈ w.registry.lookup id, r.name = (w.sessions id).state.forest.mainTitle

end World

def Kept (g g' : Givers) : Prop := ∀ id, g id = some .person → g' id ≠ some .firstMessage

/-! ## Names that are heeded -/

/-- The state of a session once it handled its mailbox, up to where it waits or is asked to stop. -/
def heard (id : String) : SessionState → List SessionCommand → SessionState
  | s, [] => s
  | s, c :: rest => if c.stalls s then s else heard id (s.applyAll (c.journals id s)) rest

/-- The same, of a session that may be waiting already. -/
def SessionActor.heard (id : String) (a : SessionActor) : SessionState :=
  match a.asking with
  | some _ => a.state
  | none => Account.heard id a.state a.mailbox

namespace World

/-- A run is not named, and a person names a session that hears of it before it asks for a title of
its own. One that is not loaded has that name already. -/
def HeedsCommand (w : World) : SupervisorCommand → Prop
  | .create _ spec name _ _ => name.isSome = true → spec.kind = .agent
  | .setSessionTitle id name =>
    ∀ title ∈ (normalizeSessionTitle name).toOption, ∀ r ∈ w.registry.lookup id,
      if w.resident id then
        ¬(w.sessions id).Blocked id ∧ ((w.sessions id).heard id).hasMain = true
      else r.name = some title
  | .userMessage _ _ | .relay _ _ | .delete _ | .tick | .shutdown | .sessionStatusChanged _ _
  | .renameSession _ _ | .publishSessionTitle _ _ => True

/-- A run asks for no title either: a message to a step of one is not what the run is called. -/
def Heeds (w : World) : Label → Prop
  | .supervise _ => ∀ c ∈ w.next, w.HeedsCommand c
  | .session id =>
    ∀ c ∈ (w.sessions id).mailbox.head?, (c.asks (w.sessions id).state).isSome = true →
      (w.sessions id).state.hasMain = true
  | .command _ | .send _ _ | .proceed => True

end World

namespace World

instance (w : World) (l : Label) : Decidable (w.Minted l) :=
  match l with
  | .supervise _ =>
    match h : w.next with
    | some (.create id _ _ _ _) => decidable_of_iff
        ((w.registry.lookup id).isNone = true ∧ (w.sessions id).state.spec.isNone = true ∧
          (w.sessions id).mailbox.isEmpty = true ∧ (w.sessions id).asking.isNone = true)
        (by simp only [Minted, h])
    | none | some (.userMessage _ _) | some (.relay _ _) | some (.delete _) | some .tick
    | some .shutdown | some (.sessionStatusChanged _ _) | some (.renameSession _ _)
    | some (.setSessionTitle _ _) | some (.publishSessionTitle _ _) =>
      .isTrue (by simp only [Minted, h])
  | .command _ | .send _ _ | .proceed | .session _ => .isTrue trivial

instance (w : World) (c : SupervisorCommand) : Decidable (w.HeedsCommand c) :=
  match c with
  | .create _ _ _ _ _ => inferInstanceAs (Decidable (_ → _))
  | .setSessionTitle _ name =>
    inferInstanceAs (Decidable (∀ title ∈ (normalizeSessionTitle name).toOption, _))
  | .userMessage _ _ | .relay _ _ | .delete _ | .tick | .shutdown | .sessionStatusChanged _ _
  | .renameSession _ _ | .publishSessionTitle _ _ => .isTrue trivial

instance (w : World) (l : Label) : Decidable (w.Heeds l) :=
  match l with
  | .supervise _ => inferInstanceAs (Decidable (∀ c ∈ w.next, w.HeedsCommand c))
  | .session id => inferInstanceAs (Decidable (∀ c ∈ (w.sessions id).mailbox.head?, _))
  | .command _ | .send _ _ | .proceed => .isTrue trivial

end World

/-! ## What is in a mailbox -/

/-- Whether all the supervisor tells a session is ahead of what has one wait for the other. -/
def orderly (id : String) : SessionState → List SessionCommand → Bool
  | _, [] => true
  | s, c :: rest =>
    if c.stalls s then rest.all (!·.tells) else orderly id (s.applyAll (c.journals id s)) rest

def SameTitle (s t : SessionState) : Prop := t.titling = s.titling ∧ t.spec = s.spec

theorem SameTitle.trans {s t u : SessionState} (h : SameTitle s t) (h' : SameTitle t u) :
    SameTitle s u :=
  ⟨h'.1.trans h.1, h'.2.trans h.2⟩

section

variable {id : String} {s t : SessionState} {c : SessionCommand}
  {mailbox sent : List SessionCommand}

theorem SameTitle.mainTitle (h : SameTitle s t) : t.forest.mainTitle = s.forest.mainTitle := by
  rw [SessionState.mainTitle_eq, SessionState.mainTitle_eq, h.1]

theorem journals_leave (hp : c.Plain) (ht : c.tells = false) :
    ∀ e ∈ c.journals id s, e.leavesTitle s.forest.root = true := by
  have hif : ∀ {b : Bool} {h : Handler}, h.Plain →
      ∀ e ∈ (if b then h s else []), e.leavesTitle s.forest.root = true := by
    intro b h hh
    cases b with
    | true => exact hh s
    | false => exact fun e he => absurd he List.not_mem_nil
  cases c with
  | create | titleSet => exact absurd ht.symm Bool.false_ne_true
  | userMessage m => exact hif hp
  | other handler => exact hif hp
  | setTitle | prepareOffload | delete => exact fun e he => absurd he List.not_mem_nil

theorem sameTitle_journals (hp : c.Plain) (ht : c.tells = false) :
    SameTitle s (s.applyAll (c.journals id s)) := by
  obtain ⟨htitle, hspec, -⟩ := SessionState.applyAll_leavesTitle (journals_leave hp ht)
  exact ⟨htitle, hspec⟩

/-- Only what the supervisor tells a session changes what the session is titled without asking. -/
theorem sameTitle_heard (hp : ∀ c ∈ sent, c.Plain) (ht : ∀ c ∈ sent, c.tells = false) :
    SameTitle s (heard id s sent) := by
  induction sent generalizing s with
  | nil => exact ⟨rfl, rfl⟩
  | cons c sent ih =>
    obtain ⟨hc, hp⟩ := List.forall_mem_cons.mp hp
    obtain ⟨hct, ht⟩ := List.forall_mem_cons.mp ht
    rw [heard]
    split_ifs
    · exact ⟨rfl, rfl⟩
    · exact (sameTitle_journals hc hct).trans (ih hp ht)

theorem sameTitle_heard_append (hp : ∀ c ∈ sent, c.Plain) (ht : ∀ c ∈ sent, c.tells = false) :
    SameTitle (heard id s mailbox) (heard id s (mailbox ++ sent)) := by
  induction mailbox generalizing s with
  | nil => exact sameTitle_heard hp ht
  | cons c mailbox ih =>
    simp only [List.cons_append, heard]
    split_ifs
    · exact ⟨rfl, rfl⟩
    · exact ih

theorem orderly_of_not_tells (h : ∀ c ∈ mailbox, c.tells = false) :
    orderly id s mailbox = true := by
  induction mailbox generalizing s with
  | nil => rfl
  | cons c mailbox ih =>
    obtain ⟨-, h⟩ := List.forall_mem_cons.mp h
    rw [orderly]
    split_ifs
    · exact List.all_eq_true.mpr fun c hc => by rw [h c hc, Bool.not_false]
    · exact ih h

theorem orderly_append (ho : orderly id s mailbox = true) (h : ∀ c ∈ sent, c.tells = false) :
    orderly id s (mailbox ++ sent) = true := by
  induction mailbox generalizing s with
  | nil => exact orderly_of_not_tells h
  | cons c mailbox ih =>
    rw [List.cons_append, orderly]
    rw [orderly] at ho
    split_ifs at ho ⊢
    · rw [List.all_append, ho, Bool.true_and]
      exact List.all_eq_true.mpr fun c hc => by rw [h c hc, Bool.not_false]
    · exact ih ho

theorem heard_push (hr : mailbox.countP (·.isRequest) = 0) (ha : asksBefore id s mailbox = false) :
    heard id s (mailbox ++ [c]) = heard id (heard id s mailbox) [c] := by
  induction mailbox generalizing s with
  | nil => rfl
  | cons d mailbox ih =>
    obtain ⟨hd, hr⟩ : d.isRequest = false ∧ mailbox.countP (·.isRequest) = 0 := by
      rw [List.countP_eq_zero, List.forall_mem_cons] at hr
      exact ⟨by simpa using hr.1, List.countP_eq_zero.mpr hr.2⟩
    rw [asksBefore, hd, if_neg Bool.false_ne_true, Bool.or_eq_false_iff] at ha
    have hs : d.stalls s = false := by rw [SessionCommand.stalls, hd, ha.1, Bool.or_false]
    simp only [List.cons_append, heard, hs, Bool.false_eq_true, if_false]
    exact ih hr ha.2

theorem orderly_push (hr : mailbox.countP (·.isRequest) = 0)
    (ha : asksBefore id s mailbox = false) : orderly id s (mailbox ++ [c]) = true := by
  induction mailbox generalizing s with
  | nil =>
    rw [List.nil_append, orderly]
    split_ifs <;> rfl
  | cons d mailbox ih =>
    obtain ⟨hd, hr⟩ : d.isRequest = false ∧ mailbox.countP (·.isRequest) = 0 := by
      rw [List.countP_eq_zero, List.forall_mem_cons] at hr
      exact ⟨by simpa using hr.1, List.countP_eq_zero.mpr hr.2⟩
    rw [asksBefore, hd, if_neg Bool.false_ne_true, Bool.or_eq_false_iff] at ha
    have hs : d.stalls s = false := by rw [SessionCommand.stalls, hd, ha.1, Bool.or_false]
    simp only [List.cons_append, orderly, hs, Bool.false_eq_true, if_false]
    exact ih hr ha.2

end

/-! ## One session -/

def SupervisorCommand.rename? (id : String) : SupervisorCommand → Option String
  | .renameSession other name => if other = id then some name else none
  | .create _ _ _ _ _ | .userMessage _ _ | .relay _ _ | .delete _ | .tick | .shutdown
  | .sessionStatusChanged _ _ | .setSessionTitle _ _ | .publishSessionTitle _ _ => none

theorem rename?_self {id title : String} :
    (SupervisorCommand.renameSession id title).rename? id = some title := if_pos rfl

theorem rename?_ne {id other title : String} (h : other ≠ id) :
    (SupervisorCommand.renameSession id title).rename? other = none := if_neg h.symm

namespace SessionActor

/-- Whether all the supervisor tells the session is ahead of what has one wait for the other. -/
def orderly (id : String) (a : SessionActor) : Bool :=
  match a.asking with
  | some _ => a.mailbox.all (!·.tells)
  | none => Account.orderly id a.state a.mailbox

variable {a : SessionActor} {id : String}

theorem heard_of_asking {c : SessionCommand}
    (h : a.asking = some c) : a.heard id = a.state := by
  rw [heard, h]

theorem heard_of_free (h : a.asking = none) :
    a.heard id = Account.heard id a.state a.mailbox := by
  rw [heard, h]

theorem orderly_of_asking {c : SessionCommand}
    (h : a.asking = some c) : a.orderly id = a.mailbox.all (!·.tells) := by
  rw [orderly, h]

theorem orderly_of_free (h : a.asking = none) :
    a.orderly id = Account.orderly id a.state a.mailbox := by
  rw [orderly, h]

/-- How a session stands to its supervisor, which waits for it or not, has the titles `renames` of
it to record and has `record` of it: it is called what it will be titled once it has heard all. -/
structure Tended (id : String) (a : SessionActor) (awaited : Bool) (renames : List String)
    (record : Option SessionRecord) : Prop where
  plain : (∀ c ∈ a.mailbox, c.Plain) ∧ ∀ c ∈ a.asking, c.Plain
  requests : a.mailbox.countP (·.isRequest) = awaited.toNat
  asked : renames = (a.asking.bind (·.asks a.state)).toList
  asks : ∀ c ∈ a.asking, (c.asks a.state).isSome = true ∧ a.state.hasMain = true
  orderly : a.orderly id = true
  agreed : ∀ r ∈ record,
    r.name = (a.heard id).forest.mainTitle ∧ (a.heard id).spec.isSome = true

section

variable {id : String} {a : SessionActor} {awaited : Bool} {renames : List String}
  {record : Option SessionRecord} {c : SessionCommand} {rest : List SessionCommand}

theorem Tended.cold : Tended id .cold false [] none where
  plain := ⟨fun _ h => absurd h List.not_mem_nil, fun _ h => absurd h (by simp [SessionActor.cold])⟩
  requests := rfl
  asked := rfl
  asks _ h := absurd h (by simp [SessionActor.cold])
  orderly := rfl
  agreed _ h := absurd h (by simp)

theorem Tended.recorded {record' : Option SessionRecord} (h : Tended id a awaited renames record)
    (hr : ∀ r' ∈ record', ∃ r ∈ record, r'.name = r.name) :
    Tended id a awaited renames record' where
  plain := h.plain
  requests := h.requests
  asked := h.asked
  asks := h.asks
  orderly := h.orderly
  agreed r' hr' := by
    obtain ⟨r, hmem, hname⟩ := hr r' hr'
    rw [hname]
    exact h.agreed r hmem

theorem Tended.same {b : SessionActor} {awaited' : Bool} (h : Tended id a awaited renames record)
    (hplain : ∀ c ∈ b.mailbox, c.Plain)
    (hrequests : b.mailbox.countP (·.isRequest) = awaited'.toNat)
    (hstate : a.asking.isSome = true → b.state = a.state) (hasking : b.asking = a.asking)
    (horderly : b.orderly id = true) (hheard : SameTitle (a.heard id) (b.heard id)) :
    Tended id b awaited' renames record where
  plain := ⟨hplain, hasking ▸ h.plain.2⟩
  requests := hrequests
  asked := by
    rw [h.asked, hasking]
    cases ha : a.asking with
    | none => rfl
    | some c => rw [hstate (by rw [ha]; rfl)]
  asks c hc := by
    rw [hasking] at hc
    rw [hstate (Option.isSome_of_mem hc)]
    exact h.asks c hc
  orderly := horderly
  agreed r hr := by
    rw [hheard.mainTitle, hheard.2]
    exact h.agreed r hr

theorem countP_push : (a.push c).mailbox.countP (·.isRequest) =
    a.mailbox.countP (·.isRequest) + c.isRequest.toNat := by
  rw [push, List.countP_append, List.countP_singleton]
  cases c.isRequest <;> rfl

theorem Tended.push {awaited' : Bool} (h : Tended id a awaited renames record) (hc : c.Plain)
    (ht : c.tells = false) (hr : awaited'.toNat = awaited.toNat + c.isRequest.toNat) :
    Tended id (a.push c) awaited' renames record := by
  have hplain : ∀ d ∈ [c], SessionCommand.Plain d := List.forall_mem_singleton.mpr hc
  have htells : ∀ d ∈ [c], SessionCommand.tells d = false := List.forall_mem_singleton.mpr ht
  have hpush : (a.push c).asking = a.asking := rfl
  refine h.same (List.forall_mem_append.mpr ⟨h.plain.1, hplain⟩) ?_ (fun _ => rfl) rfl ?_ ?_
  · rw [countP_push, h.requests, hr]
  · have ho := h.orderly
    cases ha : a.asking with
    | some d =>
      rw [orderly_of_asking ha] at ho
      rw [orderly_of_asking (hpush.trans ha), SessionActor.push, List.all_append, ho]
      exact List.all_eq_true.mpr fun d hd => by rw [htells d hd, Bool.not_false]
    | none =>
      rw [orderly_of_free ha] at ho
      rw [orderly_of_free (hpush.trans ha)]
      exact orderly_append ho htells
  · cases ha : a.asking with
    | some d =>
      rw [heard_of_asking ha, heard_of_asking (hpush.trans ha)]
      exact ⟨rfl, rfl⟩
    | none =>
      rw [heard_of_free ha, heard_of_free (hpush.trans ha)]
      exact sameTitle_heard_append hplain htells

variable {title : String}

/-- The supervisor waits for nothing of the session and tells it a title, which it will hear. -/
theorem Tended.titleSet (h : Tended id a false renames record)
    (hb : ¬a.Blocked id) (hm : (a.heard id).hasMain = true) :
    Tended id (a.push (.titleSet title)) false renames
      (record.map fun r => { r with name := some title }) := by
  obtain ⟨hfree, hasks⟩ : a.asking = none ∧ asksBefore id a.state a.mailbox = false := by
    simpa [Blocked] using hb
  have hrequests : a.mailbox.countP (·.isRequest) = 0 := h.requests
  have hpush : (a.push (.titleSet title)).asking = none := hfree
  have hheard : (a.push (.titleSet title)).heard id =
      (a.heard id).applyAll (SessionCommand.journals id (a.heard id) (.titleSet title)) := by
    rw [heard_of_free hpush, heard_of_free hfree]
    exact heard_push hrequests hasks
  refine ⟨⟨List.forall_mem_append.mpr ⟨h.plain.1, List.forall_mem_singleton.mpr trivial⟩,
    h.plain.2⟩, ?_, h.asked, h.asks, ?_, ?_⟩
  · rw [countP_push, h.requests]
    rfl
  · rw [orderly_of_free hpush]
    exact orderly_push hrequests hasks
  · intro r' hr'
    obtain ⟨r, hr, rfl⟩ := Option.mem_map.mp hr'
    have hspec : (a.heard id).spec.isSome = true := (h.agreed r hr).2
    rw [hheard, SessionCommand.journals, if_pos hspec]
    exact ⟨(SessionState.mainTitle_renamed hm).symm, hspec⟩

/-- A session that was just made is told what it is. A run is told no name. -/
theorem Tended.created (h : Tended id a false [] none) (hnew : a.state.spec = none)
    (hmail : a.mailbox = []) (hfree : a.asking = none) {spec : SessionSpec} {name : Option String}
    {message : Option UserMessage} {provision : Handler} {status : SessionStatus}
    (hc : (SessionCommand.create spec name message provision).Plain)
    (hn : name.isSome = true → spec.kind = .agent) :
    Tended id (a.push (.create spec name message provision)) false []
      (some ⟨name, status⟩) := by
  have hpush : (a.push (.create spec name message provision)).asking = none := hfree
  have hheard : (a.push (.create spec name message provision)).heard id =
      a.state.applyAll (.specRecorded id spec :: name.toList.map .renamed) := by
    rw [heard_of_free hpush, SessionActor.push, hmail]
    show a.state.applyAll (SessionCommand.journals id a.state _) = _
    rw [SessionCommand.journals, hnew]
    rfl
  refine ⟨?_, ?_, h.asked, h.asks, ?_, ?_⟩
  · rw [SessionActor.push, hmail]
    exact ⟨List.forall_mem_singleton.mpr hc, h.plain.2⟩
  · rw [SessionActor.push, hmail]
    rfl
  · rw [orderly_of_free hpush, SessionActor.push, hmail]
    rfl
  intro r hr
  cases hr
  rw [hheard]
  cases name with
  | none =>
    refine ⟨?_, rfl⟩
    show none = (a.state.applyEvent (.specRecorded id spec)).forest.mainTitle
    rw [SessionState.mainTitle_eq, SessionState.titling_specRecorded]
    cases spec.kind <;> rfl
  | some name =>
    refine ⟨?_, rfl⟩
    show some name = ((a.state.applyEvent (.specRecorded id spec)).applyEvent
      (.renamed name)).forest.mainTitle
    rw [SessionState.mainTitle_renamed]
    rw [SessionState.hasMain, SessionState.titling_specRecorded, hn rfl]
    rfl

theorem Tended.handled (h : Tended id a awaited renames record) (hfree : a.asking = none)
    (hmail : a.mailbox = c :: rest) (hs : c.stalls a.state = false) :
    Tended id { a with
      state := a.state.applyAll (c.journals id a.state)
      mailbox := rest ++ c.sends a.state } awaited renames record := by
  have hc : c.Plain := h.plain.1 c (by rw [hmail]; exact List.mem_cons_self)
  obtain ⟨hreq, -⟩ := Bool.or_eq_false_iff.mp hs
  have hsends : ∀ d ∈ c.sends a.state, d.Plain ∧ d.tells = false ∧ d.isRequest = false := by
    intro d hd
    cases c with
    | create spec name message provision =>
      rcases List.mem_append.mp hd with hd | hd
      · split_ifs at hd
        · cases hd
        · obtain rfl := List.mem_singleton.mp hd
          exact ⟨hc.1, rfl, rfl⟩
      · obtain ⟨m, hm, rfl⟩ := List.mem_map.mp hd
        exact ⟨hc.2 m (Option.mem_toList.mp hm), rfl, rfl⟩
    | userMessage | setTitle | titleSet | prepareOffload | delete | other =>
      cases hd
  have hrest : ∀ d ∈ rest, d.Plain := fun d hd =>
    h.plain.1 d (by rw [hmail]; exact List.mem_cons_of_mem _ hd)
  refine h.same ?_ ?_ (fun ha => absurd ha (by simp [hfree])) rfl ?_ ?_
  · exact List.forall_mem_append.mpr ⟨hrest, fun d hd => (hsends d hd).1⟩
  · have hnone : (c.sends a.state).countP (·.isRequest) = 0 :=
      List.countP_eq_zero.mpr fun d hd => by rw [(hsends d hd).2.2]; exact Bool.false_ne_true
    rw [← h.requests, hmail, List.countP_append, hnone, List.countP_cons_of_neg (by simp [hreq])]
    rfl
  · have ho := h.orderly
    rw [orderly_of_free hfree, hmail, Account.orderly, if_neg (by simp [hs])] at ho
    rw [orderly_of_free]
    · exact orderly_append ho fun d hd => (hsends d hd).2.1
    · exact hfree
  · rw [heard_of_free hfree, hmail, Account.heard, if_neg (by simp [hs]), heard_of_free]
    · exact sameTitle_heard_append (fun d hd => (hsends d hd).1) fun d hd => (hsends d hd).2.1
    · exact hfree

theorem isRequest_of_asks {s : SessionState} (h : (c.asks s).isSome = true) :
    c.isRequest = false := by
  cases c with
  | prepareOffload | delete => cases h
  | create | userMessage | setTitle | titleSet | other => rfl

theorem tells_of_asks {s : SessionState} (h : (c.asks s).isSome = true) : c.tells = false := by
  cases c with
  | create | titleSet => cases h
  | prepareOffload | delete | userMessage | setTitle | other => rfl

theorem Tended.waiting (h : Tended id a awaited renames record)
    (hfree : a.asking = none) (hmail : a.mailbox = c :: rest)
    (ha : c.asks a.state = some title) (hm : a.state.hasMain = true) :
    Tended id { a with mailbox := rest, asking := some c } awaited (renames ++ [title])
      record := by
  have hasks : (c.asks a.state).isSome = true := by rw [ha]; rfl
  have hstalls : c.stalls a.state = true := by rw [SessionCommand.stalls, hasks, Bool.or_true]
  refine ⟨⟨fun d hd => h.plain.1 d ?_, fun d hd => h.plain.1 d ?_⟩, ?_, ?_, ?_, ?_, ?_⟩
  · rw [hmail]
    exact List.mem_cons_of_mem _ hd
  · rw [hmail, Option.some.inj hd]
    exact List.mem_cons_self
  · rw [← h.requests, hmail, List.countP_cons_of_neg (by simp [isRequest_of_asks hasks])]
  · rw [h.asked, hfree]
    show [title] = (c.asks a.state).toList
    rw [ha]
    rfl
  · intro d hd
    cases hd
    exact ⟨hasks, hm⟩
  · have ho := h.orderly
    rwa [orderly_of_free hfree, hmail, Account.orderly, if_pos hstalls] at ho
  · intro r hr
    have hagreed := h.agreed r hr
    rwa [heard_of_free hfree, hmail, Account.heard, if_pos hstalls] at hagreed

/-- The session takes the request the supervisor waits for, and perhaps drops what is behind it. -/
theorem Tended.answered (h : Tended id a awaited renames record)
    (hfree : a.asking = none) (hmail : a.mailbox = c :: rest) (hc : c.isRequest = true) :
    awaited = true ∧ Tended id (a.answered rest (a.answer c)) false renames record := by
  generalize a.answer c = answer
  have hstalls : c.stalls a.state = true := by rw [SessionCommand.stalls, hc, Bool.true_or]
  have hcount := h.requests
  rw [hmail, List.countP_cons_of_pos hc] at hcount
  obtain ⟨rfl, hrest⟩ : awaited = true ∧ rest.countP (·.isRequest) = 0 := by
    cases awaited with
    | true => exact ⟨rfl, Nat.succ.inj hcount⟩
    | false => exact absurd hcount (Nat.succ_ne_zero _)
  have ho := h.orderly
  rw [orderly_of_free hfree, hmail, Account.orderly, if_pos hstalls] at ho
  -- What is left of the mailbox: all that was behind the request, or nothing.
  obtain ⟨kept, hkept, hsub⟩ : ∃ kept, (a.answered rest answer).mailbox = kept ∧
      ∀ d ∈ kept, d ∈ rest := by
    refine ⟨_, rfl, fun d hd => ?_⟩
    unfold SessionActor.answered at hd
    split_ifs at hd
    · cases hd
    · exact hd
  have hplain : ∀ d ∈ kept, d.Plain := fun d hd =>
    h.plain.1 d (by rw [hmail]; exact List.mem_cons_of_mem _ (hsub d hd))
  have htells : ∀ d ∈ kept, d.tells = false := fun d hd => by
    simpa using List.all_eq_true.mp ho d (hsub d hd)
  have hafter : (a.answered rest answer).asking = none := hfree
  refine ⟨rfl, h.same (by rwa [hkept]) ?_ (fun _ => rfl) rfl ?_ ?_⟩
  · rw [hkept]
    exact List.countP_eq_zero.mpr fun d hd => List.countP_eq_zero.mp hrest d (hsub d hd)
  · rw [orderly_of_free hafter, hkept]
    exact orderly_of_not_tells htells
  · rw [heard_of_free hfree, heard_of_free hafter, hkept, hmail, Account.heard, if_pos hstalls]
    exact sameTitle_heard hplain htells

theorem Tended.acknowledged (h : Tended id a awaited (title :: renames) record) :
    Tended id (a.acknowledged id title) awaited renames
      (record.map fun r => { r with name := some title }) := by
  obtain ⟨c, hc⟩ : ∃ c, a.asking = some c := by
    cases ha : a.asking with
    | none => exact absurd h.asked (by rw [ha]; simp)
    | some c => exact ⟨c, rfl⟩
  obtain ⟨hasks, hm⟩ := h.asks c hc
  have hplain : c.Plain := h.plain.2 c hc
  have hnil : renames = [] := by
    have hasked := h.asked
    rw [hc, Option.bind_some] at hasked
    obtain ⟨asked, ha⟩ := Option.isSome_iff_exists.mp hasks
    rw [ha] at hasked
    exact (List.cons.inj hasked).2
  have hack : a.acknowledged id title =
      ⟨(a.state.applyEvent (.renamed title)).applyAll
        (c.journals id (a.state.applyEvent (.renamed title))), a.mailbox, none⟩ := by
    rw [SessionActor.acknowledged, hc]
  have hfree : (a.acknowledged id title).asking = none := by rw [hack]
  have ho := h.orderly
  rw [orderly_of_asking hc] at ho
  have htells : ∀ d ∈ a.mailbox, d.tells = false := fun d hd => by
    simpa using List.all_eq_true.mp ho d hd
  have hsame : SameTitle (a.state.applyEvent (.renamed title))
      ((a.acknowledged id title).heard id) := by
    rw [heard_of_free hfree, hack]
    exact (sameTitle_journals hplain (tells_of_asks hasks)).trans
      (sameTitle_heard h.plain.1 htells)
  refine ⟨?_, ?_, ?_, ?_, ?_, ?_⟩
  · rw [hack]
    exact ⟨h.plain.1, fun d hd => absurd hd (by simp)⟩
  · rw [hack]
    exact h.requests
  · rw [hfree, hnil]
    rfl
  · rw [hfree]
    exact fun d hd => absurd hd (by simp)
  · rw [orderly_of_free hfree, hack]
    exact orderly_of_not_tells htells
  · intro r' hr'
    obtain ⟨r, hr, rfl⟩ := Option.mem_map.mp hr'
    have hspec := (h.agreed r hr).2
    rw [heard_of_asking hc] at hspec
    rw [hsame.mainTitle, hsame.2, SessionState.mainTitle_renamed hm]
    refine ⟨rfl, ?_⟩
    rwa [SessionState.spec_applyEvent fun _ _ he => SessionDomainEvent.noConfusion he]

end

end SessionActor

/-! ## All sessions -/

namespace World

variable {w t : World} {id : String} {timeout now : ℕ}

/-- The titles of a session the supervisor has to record. -/
def renames (w : World) (id : String) : List String := w.inbox.filterMap (·.rename? id)

/-- Every session stands as it should to its supervisor. -/
structure Tends (w : World) : Prop where
  inbox : ∀ c ∈ w.inbox, c.Plain
  tended : ∀ id, (w.sessions id).Tended id (decide (w.awaited = some id)) (w.renames id)
    (w.registry.lookup id)

theorem tends_init : init.Tends where
  inbox _ h := absurd h List.not_mem_nil
  tended _ := .cold

variable {c : SupervisorCommand} {rest : List SupervisorCommand}

theorem Tends.pop (h : w.Tends)
    (hinbox : w.inbox = c :: rest) (hc : ∀ id, c.rename? id = none) :
    { w with inbox := rest }.Tends where
  inbox d hd := h.inbox d (by rw [hinbox]; exact List.mem_cons_of_mem _ hd)
  tended id := by
    have ht := h.tended id
    have hrenames : w.renames id = { w with inbox := rest }.renames id := by
      rw [renames, hinbox, List.filterMap_cons_none (hc id)]
      rfl
    rwa [hrenames] at ht

theorem Tends.command (h : w.Tends) (hp : c.Plain)
    (hc : ∀ id, c.rename? id = none) : { w with inbox := w.inbox ++ [c] }.Tends where
  inbox := List.forall_mem_append.mpr ⟨h.inbox, List.forall_mem_singleton.mpr hp⟩
  tended id := by
    have ht := h.tended id
    have hrenames : w.renames id = { w with inbox := w.inbox ++ [c] }.renames id := by
      show _ = (w.inbox ++ [c]).filterMap _
      rw [List.filterMap_append, List.filterMap_cons_none (hc id), List.filterMap_nil,
        List.append_nil]
      rfl
    rwa [hrenames] at ht

/-- Only `id` is touched, and what the supervisor has to do of others stays. -/
theorem Tends.update (h : w.Tends) {a : SessionActor} (hinbox : ∀ c ∈ t.inbox, c.Plain)
    (hsessions : t.sessions = Function.update w.sessions id a)
    (hothers : ∀ other, other ≠ id → (t.awaited = some other ↔ w.awaited = some other) ∧
      t.renames other = w.renames other ∧ t.registry.lookup other = w.registry.lookup other)
    (hself : a.Tended id (decide (t.awaited = some id)) (t.renames id) (t.registry.lookup id)) :
    t.Tends where
  inbox := hinbox
  tended other := by
    by_cases ho : other = id
    · subst ho
      rw [hsessions, Function.update_self]
      exact hself
    · obtain ⟨hawaited, hrenames, hrecord⟩ := hothers other ho
      rw [hsessions, Function.update_of_ne ho, hrenames, hrecord, decide_eq_decide.mpr hawaited]
      exact h.tended other

theorem Tends.tell {c : SessionCommand} (h : w.Tends) (hp : c.Plain) (ht : c.tells = false)
    (hr : c.isRequest = false) : (w.tell id c).Tends := by
  refine h.update h.inbox rfl (fun other _ => ⟨Iff.rfl, rfl, rfl⟩) ?_
  refine (h.tended id).push hp ht ?_
  rw [hr]
  rfl

theorem Tends.await {errand : Errand} (h : w.Tends) (hw : w.awaited = none) :
    (w.await errand).Tends := by
  have hsome : (w.await errand).awaited = some errand.session := rfl
  refine h.update h.inbox rfl (fun other ho => ⟨?_, rfl, rfl⟩) ?_
  · rw [hsome, hw]
    exact iff_of_false (fun he => ho (Option.some.inj he).symm) (by simp)
  · have ht := h.tended errand.session
    rw [hw] at ht
    refine ht.push ?_ ?_ ?_
    · cases errand <;> exact trivial
    · cases errand <;> rfl
    · rw [hsome, request_isRequest]
      simp

/-- Notes of when a session was spoken to, and a phase in which nobody is waited for. -/
theorem Tends.aside (h : w.Tends) (hsessions : t.sessions = w.sessions)
    (hinbox : t.inbox = w.inbox) (hregistry : t.registry = w.registry)
    (hawaited : t.awaited = w.awaited) : t.Tends where
  inbox := by rw [hinbox]; exact h.inbox
  tended id := by
    rw [hsessions, hregistry, hawaited, renames, hinbox]
    exact h.tended id

variable {registry : Map String SessionRecord}

theorem Tends.recorded (h : w.Tends)
    (hr : ∀ id, ∀ r' ∈ registry.lookup id, ∃ r ∈ w.registry.lookup id, r'.name = r.name) :
    { w with registry }.Tends where
  inbox := h.inbox
  tended id := (h.tended id).recorded (hr id)

theorem names_adjust {f : SessionRecord → SessionRecord}
    (hf : ∀ r ∈ registry.lookup id, (f r).name = r.name) :
    ∀ other, ∀ r' ∈ (registry.adjust id f).lookup other,
      ∃ r ∈ registry.lookup other, r'.name = r.name := by
  intro other r' hr'
  by_cases ho : other = id
  · subst ho
    rw [Map.lookup_adjust_self] at hr'
    obtain ⟨r, hr, rfl⟩ := Option.mem_map.mp hr'
    exact ⟨r, hr, hf r hr⟩
  · rw [Map.lookup_adjust_ne ho] at hr'
    exact ⟨r', hr', rfl⟩

theorem names_erase :
    ∀ other, ∀ r' ∈ (registry.erase id).lookup other,
      ∃ r ∈ registry.lookup other, r'.name = r.name := by
  intro other r' hr'
  by_cases ho : other = id
  · subst ho
    rw [AList.lookup_erase] at hr'
    cases hr'
  · rw [AList.lookup_erase_ne ho] at hr'
    exact ⟨r', hr', rfl⟩

theorem Tends.sweep {why : Sweep} {ids : List String} (h : w.Tends) (hw : w.awaited = none) :
    (w.sweep why ids).Tends := by
  induction ids with
  | nil => exact h.aside rfl rfl rfl hw.symm
  | cons id ids ih =>
    rw [World.sweep]
    split_ifs
    · exact h.await hw
    · exact ih

variable {title : String}

theorem lookup_rename_self : (w.rename id title).registry.lookup id =
    (w.registry.lookup id).map fun r => { r with name := some title } :=
  Map.lookup_adjust_self

theorem lookup_rename_ne {other : String} (h : other ≠ id) :
    (w.rename id title).registry.lookup other = w.registry.lookup other :=
  Map.lookup_adjust_ne h

theorem Tends.titled {name : String} (h : w.Tends) (hw : w.awaited = none)
    (hn : normalizeSessionTitle name = .ok title) (hg : w.HeedsCommand (.setSessionTitle id name))
    (hk : w.knows id = true) :
    ((if w.resident id then w.tell id (.titleSet title) else w).rename id title).Tends := by
  obtain ⟨r, hr⟩ := Option.isSome_iff_exists.mp hk
  have hguard := hg title (by rw [hn]; rfl) r hr
  have ht := h.tended id
  rw [hw] at ht
  by_cases hres : w.resident id = true
  · rw [if_pos hres] at hguard ⊢
    obtain ⟨hb, hm⟩ := hguard
    refine h.update h.inbox rfl (fun other ho => ⟨Iff.rfl, rfl, lookup_rename_ne ho⟩) ?_
    rw [lookup_rename_self,
      show ((w.tell id (.titleSet title)).rename id title).awaited = none from hw]
    exact ht.titleSet hb hm
  · rw [if_neg hres] at hguard ⊢
    refine h.recorded (names_adjust fun r' hr' => ?_)
    cases hr.symm.trans hr'
    exact hguard.symm

theorem Tends.supervise (h : w.Tends) (hw : w.phase = .idle)
    (hp : c.Plain) (hc : ∀ id, c.rename? id = none)
    (hnew : ∀ id spec name message provision, c = .create id spec name message provision →
      w.registry.lookup id = none ∧ (w.sessions id).state.spec = none ∧
        (w.sessions id).mailbox = [] ∧ (w.sessions id).asking = none)
    (hg : w.HeedsCommand c) : (w.supervise timeout now c).Tends := by
  have hnobody : w.awaited = none := by rw [awaited, hw]
  cases c with
  | create id spec name message provision =>
    obtain ⟨hnone, hspec, hmail, hfree⟩ := hnew id spec name message provision rfl
    refine h.update h.inbox rfl (fun other ho => ⟨Iff.rfl, rfl, AList.lookup_insert_ne ho⟩) ?_
    have ht := h.tended id
    have hrenames : w.renames id = [] := by
      rw [ht.asked, hfree]
      rfl
    have hrecord : (w.registry.insert id ⟨name, .provisioning⟩).lookup id =
        some ⟨name, .provisioning⟩ := AList.lookup_insert ..
    show ((w.sessions id).push _).Tended id (decide (w.awaited = some id)) (w.renames id)
      ((w.registry.insert id ⟨name, .provisioning⟩).lookup id)
    rw [hnone, hrenames, hnobody] at ht
    rw [hrecord, hrenames, hnobody]
    exact ht.created hspec hmail hfree hp hg
  | userMessage id m =>
    rw [World.supervise]
    split_ifs
    · exact (h.aside (t := w.reach now id) rfl rfl rfl rfl).tell hp rfl rfl
    · exact h
  | relay id handler =>
    rw [World.supervise]
    split_ifs
    · exact (h.aside (t := w.reach now id) rfl rfl rfl rfl).tell hp rfl rfl
    · exact h
  | delete id =>
    rw [World.supervise]
    split_ifs
    · exact (h.aside (t := w.reach now id) rfl rfl rfl rfl).await hnobody
    · exact h
  | tick | shutdown => exact h.sweep hnobody
  | sessionStatusChanged id status => exact h.recorded (names_adjust fun _ _ => rfl)
  | setSessionTitle id name =>
    rw [World.supervise]
    cases hn : normalizeSessionTitle name with
    | error e => exact h
    | ok title =>
      by_cases hk : w.knows id = true
      · simp only [hk, if_true]
        exact h.titled hnobody hn hg hk
      · simp only [hk, if_false, Bool.false_eq_true]
        exact h
  | renameSession id name => exact absurd (hc id) (by simp [SupervisorCommand.rename?])
  | publishSessionTitle => exact h

theorem Tends.renameSession (h : w.Tends)
    (hinbox : w.inbox = .renameSession id title :: rest) :
    ({ w with inbox := rest }.supervise timeout now (.renameSession id title)).Tends := by
  let named : World := { w with inbox := rest }.rename id title
  have hself : w.renames id = title :: named.renames id := by
    rw [renames, hinbox, List.filterMap_cons_some rename?_self]
    rfl
  have hothers : ∀ other, other ≠ id → named.renames other = w.renames other := by
    intro other ho
    rw [renames, renames, hinbox, List.filterMap_cons_none (rename?_ne ho)]
    rfl
  have hnamed :
      (named.setSession id ((w.sessions id).acknowledged id title)).Tends := by
    refine h.update ?_ rfl
      (fun other ho => ⟨Iff.rfl, hothers other ho, Map.lookup_adjust_ne ho⟩) ?_
    · intro c hc
      exact h.inbox c (by rw [hinbox]; exact List.mem_cons_of_mem _ hc)
    · have ht := h.tended id
      rw [hself] at ht
      have hack := ht.acknowledged
      rwa [← lookup_rename_self] at hack
  exact hnamed.command (c := .publishSessionTitle id title) trivial fun _ => rfl

variable {answer : Option Bool}

theorem Tends.proceed {errand : Errand} (h : w.Tends)
    (hw : w.awaited = none) : (w.proceed errand answer).Tends := by
  have hsettle : (w.settle errand answer).Tends := by
    unfold settle
    split
    · exact (h.recorded names_erase).aside rfl rfl rfl rfl
    · exact h.aside rfl rfl rfl rfl
    · exact h.aside rfl rfl rfl rfl
  have hnone : (w.settle errand answer).awaited = none := by
    unfold settle
    split <;> exact hw
  cases errand with
  | delete id => exact hsettle.aside rfl rfl rfl hnone.symm
  | sweep why id rest => exact hsettle.sweep hnone

theorem inbox_reply : (w.reply id answer).inbox = w.inbox := by
  unfold reply
  split
  · split_ifs <;> rfl
  · rfl
  · rfl

theorem registry_reply : (w.reply id answer).registry = w.registry := by
  unfold reply
  split
  · split_ifs <;> rfl
  · rfl
  · rfl

/-- A session takes its next command. One that asks for a title has a main agent. -/
theorem Tends.serve {c : SessionCommand} {rest : List SessionCommand} (h : w.Tends)
    (hfree : (w.sessions id).asking = none) (hmail : (w.sessions id).mailbox = c :: rest)
    (hg : (c.asks (w.sessions id).state).isSome = true →
      (w.sessions id).state.hasMain = true) : (w.serve id c rest).Tends := by
  have ht := h.tended id
  cases ha : c.asks (w.sessions id).state with
  | some title =>
    have hserve : w.serve id c rest =
        { w.setSession id { w.sessions id with mailbox := rest, asking := some c } with
          inbox := w.inbox ++ [.renameSession id title] } := by
      simp only [World.serve, ha]
    rw [hserve]
    refine h.update ?_ rfl (fun other ho => ⟨Iff.rfl, ?_, rfl⟩) ?_
    · exact List.forall_mem_append.mpr ⟨h.inbox, List.forall_mem_singleton.mpr trivial⟩
    · show (w.inbox ++ [_]).filterMap _ = _
      rw [List.filterMap_append, List.filterMap_cons_none (rename?_ne ho),
        List.filterMap_nil, List.append_nil]
      rfl
    · have hrenames : World.renames
          { w.setSession id { w.sessions id with mailbox := rest, asking := some c } with
            inbox := w.inbox ++ [.renameSession id title] } id = w.renames id ++ [title] := by
        show (w.inbox ++ [_]).filterMap _ = _
        rw [List.filterMap_append, List.filterMap_cons_some rename?_self]
        rfl
      rw [hrenames]
      exact ht.waiting hfree hmail ha (hg (by rw [ha]; rfl))
  | none =>
    by_cases hc : c.isRequest = true
    · obtain ⟨hawaited, hanswered⟩ := ht.answered hfree hmail hc
      replace hawaited := of_decide_eq_true hawaited
      have hserve : w.serve id c rest = (w.setSession id
          ((w.sessions id).answered rest ((w.sessions id).answer c))).reply id
            ((w.sessions id).answer c) := by
        simp only [World.serve, ha, hc, if_true]
      have hnone : (w.serve id c rest).awaited = none := by
        rw [awaited_serve, if_pos ⟨hc, hawaited⟩]
      have hinbox : (w.serve id c rest).inbox = w.inbox := by
        rw [hserve]
        exact inbox_reply
      have hsessions : (w.serve id c rest).sessions = Function.update w.sessions id
          ((w.sessions id).answered rest ((w.sessions id).answer c)) := by
        rw [hserve]
        exact sessions_reply
      refine h.update ?_ hsessions (fun other ho => ⟨?_, ?_, ?_⟩) ?_
      · rw [hinbox]
        exact h.inbox
      · rw [hnone, hawaited]
        exact iff_of_false (by simp) fun he => ho (Option.some.inj he).symm
      · rw [renames, hinbox]
        rfl
      · rw [hserve, registry_reply]
        rfl
      · rw [hnone, renames, hinbox, hserve, registry_reply]
        exact hanswered
    · have hserve : w.serve id c rest = w.setSession id { w.sessions id with
          state := (w.sessions id).state.applyAll (c.journals id (w.sessions id).state)
          mailbox := rest ++ c.sends (w.sessions id).state } := by
        simp only [World.serve, ha, hc, if_false, Bool.false_eq_true]
      rw [hserve]
      refine h.update h.inbox rfl (fun other _ => ⟨Iff.rfl, rfl, rfl⟩) ?_
      refine ht.handled hfree hmail ?_
      rw [SessionCommand.stalls, ha, Option.isSome_none, Bool.or_false]
      simpa using hc

theorem next_of_idle
    (hp : w.phase = .idle) (hinbox : w.inbox = c :: rest) : w.next = some c := by
  rw [next, hp, hinbox]
  rfl

theorem rename?_eq_none (h : ∀ id name, c ≠ .renameSession id name) :
    c.rename? id = none := by
  cases c with
  | renameSession other name => exact absurd rfl (h other name)
  | create | userMessage | relay | delete | tick | shutdown | sessionStatusChanged
  | setSessionTitle | publishSessionTitle => rfl

variable {l : Label}

theorem tends_step (h : w.Tends) (hstep : w.step? timeout l = some t)
    (hp : l.Plain) (hm : w.Minted l) (hg : w.Heeds l) : t.Tends := by
  cases l with
  | command c =>
    obtain ⟨hc, rfl⟩ := step?_command hstep
    exact h.command hp fun _ => rename?_eq_none hc
  | send id c =>
    obtain ⟨hc, rfl⟩ := step?_send hstep
    exact h.tell hp.1 hp.2 hc
  | supervise now =>
    obtain ⟨c, rest, hphase, hinbox, rfl⟩ := step?_supervise hstep
    have hnext := next_of_idle hphase hinbox
    have hplain : c.Plain := h.inbox c (by rw [hinbox]; exact List.mem_cons_self)
    by_cases hc : ∀ id name, c ≠ .renameSession id name
    · refine (h.pop hinbox fun _ => rename?_eq_none hc).supervise hphase hplain
        (fun _ => rename?_eq_none hc) ?_ ?_
      · rintro id spec name message provision rfl
        simp only [Minted, hnext, Option.isNone_iff_eq_none, List.isEmpty_iff] at hm
        exact hm
      · have hheeds : w.HeedsCommand c := hg c hnext
        cases c <;> exact hheeds
    · push Not at hc
      obtain ⟨id, title, rfl⟩ := hc
      exact h.renameSession hinbox
  | proceed =>
    obtain ⟨errand, answer, hphase, rfl⟩ := step?_proceed hstep
    exact h.proceed (by rw [awaited, hphase])
  | session id =>
    obtain ⟨c, rest, hfree, hmail, rfl⟩ := step?_session hstep
    exact h.serve hfree hmail (hg c (by rw [hmail]; rfl))

/-! ## Who named what -/

/-- A session that somebody named has a name. -/
def Known (registry : Map String SessionRecord) (g : Givers) : Prop :=
  ∀ id, (g id).isSome = true → ∀ r ∈ registry.lookup id, r.name.isSome = true

variable {g : Givers} {registry registry' : Map String SessionRecord}

theorem Known.recorded (h : Known registry g)
    (hr : ∀ id, ∀ r' ∈ registry'.lookup id, ∃ r ∈ registry.lookup id, r'.name = r.name) :
    Known registry' g := by
  intro id hid r' hr'
  obtain ⟨r, hmem, hname⟩ := hr id r' hr'
  rw [hname]
  exact h id hid r hmem

theorem Known.update {giver : Option Giver} (h : Known registry g)
    (hothers : ∀ other, other ≠ id → registry'.lookup other = registry.lookup other)
    (hself : giver.isSome = true → ∀ r ∈ registry'.lookup id, r.name.isSome = true) :
    Known registry' (Function.update g id giver) := by
  intro other hother r hr
  by_cases ho : other = id
  · subst ho
    rw [Function.update_self] at hother
    exact hself hother r hr
  · rw [Function.update_of_ne ho] at hother
    rw [hothers other ho] at hr
    exact h other hother r hr

theorem Known.renamed {g' : Givers} (h : Known registry g)
    (hg : ∀ other, other ≠ id → g' other = g other) :
    Known (registry.adjust id fun r => { r with name := some title }) g' := by
  intro other hother r hr
  by_cases ho : other = id
  · subst ho
    rw [Map.lookup_adjust_self] at hr
    obtain ⟨r', -, rfl⟩ := Option.mem_map.mp hr
    rfl
  · rw [hg other ho] at hother
    rw [Map.lookup_adjust_ne ho] at hr
    exact h other hother r hr

theorem registry_sweep {why : Sweep} {ids : List String} :
    (w.sweep why ids).registry = w.registry := by
  induction ids with
  | nil => rfl
  | cons id ids ih =>
    rw [World.sweep]
    split_ifs
    · rfl
    · exact ih

theorem namedBy_renameSession_ne {other : String} (h : other ≠ id) :
    w.namedBy g (.renameSession id title) other = g other := by
  simp only [namedBy]
  split_ifs
  · cases (w.sessions id).asking with
    | none => rfl
    | some c => cases c <;> exact Function.update_of_ne h ..
  · rfl

theorem known_supervise
    (h : Known w.registry g) :
    Known ({ w with inbox := rest }.supervise timeout now c).registry (w.namedBy g c) := by
  cases c with
  | create id spec name message provision =>
    refine h.update (fun other ho => AList.lookup_insert_ne ho) fun hn r hr => ?_
    cases (AList.lookup_insert ..).symm.trans hr
    simpa using hn
  | userMessage | relay | delete =>
    simp only [World.supervise, namedBy]
    split_ifs <;> exact h
  | tick | shutdown =>
    simp only [World.supervise, namedBy, registry_sweep]
    exact h
  | sessionStatusChanged => exact h.recorded (names_adjust fun _ _ => rfl)
  | setSessionTitle id name =>
    simp only [World.supervise, namedBy]
    cases normalizeSessionTitle name with
    | error => exact h
    | ok title =>
      change Known (World.registry (if w.knows id = true then _ else _)) _
      by_cases hk : w.knows id = true
      · rw [if_pos hk, if_pos hk]
        have hsame : ∀ other, other ≠ id →
            Function.update g id (some Giver.person) other = g other :=
          fun other ho => Function.update_of_ne ho ..
        split_ifs <;> exact h.renamed hsame
      · rw [if_neg hk, if_neg hk]
        exact h
  | renameSession id title => exact h.renamed fun other ho => namedBy_renameSession_ne ho
  | publishSessionTitle => exact h

theorem registry_serve {c : SessionCommand} {rest : List SessionCommand} :
    (w.serve id c rest).registry = w.registry := by
  unfold serve
  dsimp only
  split
  · rfl
  · split_ifs
    · exact registry_reply
    · rfl

theorem known_step (h : Known w.registry g) (hstep : w.step? timeout l = some t) :
    Known t.registry (w.named l t g) := by
  cases l with
  | command c =>
    obtain ⟨-, rfl⟩ := step?_command hstep
    exact h
  | send id c =>
    obtain ⟨-, rfl⟩ := step?_send hstep
    exact h
  | supervise now =>
    obtain ⟨c, rest, hphase, hinbox, rfl⟩ := step?_supervise hstep
    simp only [named, next_of_idle hphase hinbox]
    exact known_supervise h
  | proceed =>
    obtain ⟨errand, answer, -, rfl⟩ := step?_proceed hstep
    have hsettle : Known (w.settle errand answer).registry g := by
      unfold settle
      split
      · exact h.recorded names_erase
      · exact h
      · exact h
    cases errand with
    | delete => exact hsettle
    | sweep why id rest =>
      simp only [World.proceed, named, registry_sweep]
      exact hsettle
  | session id =>
    obtain ⟨c, rest, -, -, rfl⟩ := step?_session hstep
    rw [registry_serve]
    exact h

theorem unnamed_of_firstMessage (h : w.Tends) {m : UserMessage}
    (ha : (w.sessions id).asking = some (.userMessage m)) :
    ∀ r ∈ w.registry.lookup id, r.name = none := by
  intro r hr
  have ht := h.tended id
  have hname := (ht.agreed r hr).1
  have hasks := (ht.asks _ ha).1
  rw [SessionActor.heard_of_asking ha] at hname
  rw [hname]
  change (SessionState.titleFromFirstMessage _ _ _).isSome = true at hasks
  unfold SessionState.titleFromFirstMessage at hasks
  split_ifs at hasks with hcond
  · exact Option.isNone_iff_eq_none.mp (Bool.and_eq_true_iff.mp hcond).2
  · cases hasks

theorem asking_of_namedBy (h : w.namedBy g c id = some .firstMessage)
    (hg : g id ≠ some .firstMessage) :
    w.knows id = true ∧ ∃ m, (w.sessions id).asking = some (.userMessage m) := by
  have hupdate : ∀ {other giver}, Function.update g other giver id = some .firstMessage →
      other = id ∧ giver = some .firstMessage := by
    intro other giver hu
    by_cases ho : id = other
    · subst ho
      rw [Function.update_self] at hu
      exact ⟨rfl, hu⟩
    · rw [Function.update_of_ne ho] at hu
      exact absurd hu hg
  cases c with
  | create other spec name message provision =>
    obtain ⟨-, hname⟩ := hupdate h
    cases name with
    | none => cases hname
    | some name => exact absurd (Option.some.inj hname) Giver.noConfusion
  | setSessionTitle other name =>
    simp only [namedBy] at h
    cases hn : normalizeSessionTitle name with
    | error e =>
      rw [hn] at h
      exact absurd h hg
    | ok title =>
      rw [hn] at h
      split_ifs at h
      · exact absurd (Option.some.inj (hupdate h).2) (by decide)
      · exact absurd h hg
  | renameSession other title =>
    simp only [namedBy] at h
    split_ifs at h with hk
    · cases ha : (w.sessions other).asking with
      | none =>
        rw [ha] at h
        exact absurd h hg
      | some c =>
        rw [ha] at h
        cases c with
        | userMessage m =>
          obtain ⟨rfl, -⟩ := hupdate h
          exact ⟨hk, m, ha⟩
        | create | setTitle | titleSet | prepareOffload | delete | other =>
          exact absurd (Option.some.inj (hupdate h).2) (by decide)
    · exact absurd h hg
  | userMessage | relay | delete | tick | shutdown | sessionStatusChanged
  | publishSessionTitle => exact absurd h hg

theorem kept_step (h : w.Tends) (hk : Known w.registry g) :
    Kept g (w.named l t g) := by
  intro id hid hfirst
  have hg : g id ≠ some .firstMessage := by rw [hid]; decide
  cases l with
  | command | send | proceed | session => exact hg hfirst
  | supervise now =>
    cases hnext : w.next with
    | none =>
      simp only [named, hnext] at hfirst
      exact hg hfirst
    | some c =>
      simp only [named, hnext] at hfirst
      obtain ⟨hknown, m, ha⟩ := asking_of_namedBy hfirst hg
      obtain ⟨r, hr⟩ := Option.isSome_iff_exists.mp hknown
      have hsome := hk id (by rw [hid]; rfl) r hr
      rw [unnamed_of_firstMessage h ha r hr] at hsome
      exact Bool.false_ne_true hsome

theorem Tends.agrees (h : w.Tends) : w.Agrees := by
  intro id hsettled r hr
  have hname := ((h.tended id).agreed r hr).1
  rwa [SessionActor.heard_of_free hsettled.asking, hsettled.mailbox] at hname

end World

/-- In a run whose steps all heed what the sessions are called, the registry calls every settled
session what it is titled, and no first message replaces a name that a person gave. -/
theorem titles_agree (timeout : ℕ) {tr : List ((World × Givers) × Label × (World × Givers))}
    {x : World × Givers} (h : (titling timeout).Exec (.init, fun _ => none) tr x)
    (hg : ∀ y ∈ tr, y.1.1.Heeds y.2.1) :
    ∀ y ∈ tr, y.2.2.1.Agrees ∧ Kept y.1.2 y.2.2.2 := by
  have hinv : ∀ y ∈ tr, y.1.1.Tends ∧ World.Known y.1.1.registry y.1.2 := by
    intro y hy
    obtain ⟨pre, hpre, hmem, -⟩ := h.before hy
    refine hpre.guarded (G := fun x l => x.1.Heeds l)
      (I := fun x => x.1.Tends ∧ World.Known x.1.registry x.2) ?_ (.init ⟨rfl, rfl⟩)
      ⟨World.tends_init, fun _ hid => absurd hid (by simp)⟩
      fun z hz => hg z (hmem z hz)
    rintro x l z - ⟨ht, hk⟩ hheeds ⟨⟨hstep, hplain, hminted⟩, hgivers⟩
    refine ⟨World.tends_step ht hstep hplain hminted hheeds, ?_⟩
    rw [hgivers]
    exact World.known_step hk hstep
  intro y hy
  obtain ⟨ht, hk⟩ := hinv y hy
  obtain ⟨-, -, -, ⟨hstep, hplain, hminted⟩, hgivers⟩ := h.before hy
  refine ⟨(World.tends_step ht hstep hplain hminted (hg y hy)).agrees, ?_⟩
  rw [hgivers]
  exact World.kept_step ht hk

theorem titling_sound (timeout : ℕ) {G : World × Givers → Label → Prop}
    (hG : ∀ x l, G x l → x.1.Minted l) (x : World × Givers) (l : Label) (y : World × Givers)
    (hl : l.Plain) (hg : G x l)
    (h : System.recordStep? World.named (World.step? timeout) x l = some y) :
    (titling timeout).Step x l y := by
  obtain ⟨t, ht, rfl⟩ := Option.map_eq_some_iff.mp h
  exact ⟨⟨ht, hl, hG x l hg⟩, rfl⟩

def createdUntitled : List Label :=
  [.command (.create "a" ⟨.agent, none⟩ none none fun _ => []), .supervise 0, .session "a",
    .session "a"]

def titledThenNamed : List Label :=
  createdUntitled ++ [Label.command (.userMessage "a" ⟨none, "hi", fun _ => []⟩), .supervise 1,
    .session "a", .supervise 1, .supervise 1, .command (.setSessionTitle "a" "mine"), .supervise 2,
    .session "a"]

/-- Unloaded, it gets a name by a person, and is loaded again by a read. -/
def namedUnloaded : List Label :=
  createdUntitled ++ [Label.command .shutdown, .supervise 1, .session "a", .proceed,
    .command (.setSessionTitle "a" "mine"), .supervise 2, .command (.relay "a" fun _ => []),
    .supervise 3, .session "a"]

def messagedAfter : List Label :=
  [.command (.userMessage "a" ⟨none, "hi", fun _ => []⟩), .supervise 4, .session "a"]

theorem handler_plain_nil : Handler.Plain fun _ => [] := fun _ _ he => absurd he List.not_mem_nil

theorem created_plain : ∀ l ∈ createdUntitled, l.Plain := by
  simp [createdUntitled, Label.Plain, SupervisorCommand.Plain, handler_plain_nil]

/-- A person's name replaces the title of a first message, here and there. -/
theorem titles_agree_named : ∃ tr x, (titling 180).Exec (.init, fun _ => none) tr x ∧
    tr.map (·.2.1) = titledThenNamed ∧ (∀ y ∈ tr, y.2.2.1.Agrees ∧ Kept y.1.2 y.2.2.2) ∧
    x.1.Settled "a" ∧ x.2 "a" = some .person ∧
    (x.1.sessions "a").state.forest.mainTitle = some "mine" := by
  have hplain : ∀ l ∈ titledThenNamed, l.Plain := by
    rw [titledThenNamed, List.forall_mem_append]
    refine ⟨created_plain, ?_⟩
    simp [Label.Plain, SupervisorCommand.Plain, handler_plain_nil]
  let x := (System.steps? (System.guarded? (fun x l => x.1.Minted l ∧ x.1.Heeds l)
    (System.recordStep? World.named (World.step? 180))) (.init, fun _ => none)
    titledThenNamed).get (by decide +kernel)
  obtain ⟨tr, h, hl, hg⟩ := System.exec_of_guarded?_of_labels
    (titling_sound 180 fun _ _ hG => hG.1) hplain (t := x) (Option.some_get _).symm
  exact ⟨tr, x, h, hl, titles_agree 180 h fun y hy => (hg y hy).2,
    ⟨by decide +kernel, by decide +kernel, by decide +kernel, by decide +kernel, by decide +kernel⟩,
    by decide +kernel, by decide +kernel⟩

/-- A person names a session that is unloaded, and the session does not hear of it: its title is
another once it is loaded, and its first message replaces the name. -/
theorem unheard_name_replaced : ∃ tr x tr' y z, (titling 180).Exec (.init, fun _ => none) tr x ∧
    tr.map (·.2.1) = namedUnloaded ∧ ¬x.1.Agrees ∧ (titling 180).Exec x tr' y ∧
    tr'.map (·.2.1) = messagedAfter ∧ (titling 180).Step y (.supervise 4) z ∧ ¬Kept y.2 z.2 := by
  have hplain : ∀ l ∈ namedUnloaded, l.Plain := by
    rw [namedUnloaded, List.forall_mem_append]
    refine ⟨created_plain, ?_⟩
    simp [Label.Plain, SupervisorCommand.Plain, handler_plain_nil]
  have hplain' : ∀ l ∈ messagedAfter, l.Plain := by
    simp [messagedAfter, Label.Plain, SupervisorCommand.Plain, handler_plain_nil]
  let step? := System.guarded? (fun x l => x.1.Minted l)
    (System.recordStep? World.named (World.step? 180))
  let x := (System.steps? step? (.init, fun _ => none) namedUnloaded).get (by decide +kernel)
  let y := (System.steps? step? x messagedAfter).get (by decide +kernel)
  let z := (System.recordStep? World.named (World.step? 180) y (.supervise 4)).get
    (by decide +kernel)
  obtain ⟨tr, h, hl, -⟩ := System.exec_of_guarded?_of_labels
    (titling_sound 180 fun _ _ hG => hG) hplain (t := x) (Option.some_get _).symm
  obtain ⟨tr', h', hl', -⟩ := System.exec_of_guarded?_of_labels
    (titling_sound 180 fun _ _ hG => hG) hplain' (t := y) (Option.some_get _).symm
  refine ⟨tr, x, tr', y, z, h, hl, fun hagrees => ?_, h', hl', ?_, fun hkept => ?_⟩
  · have hname : (x.1.registry.lookup "a").map (·.name) = some (some "mine") := by decide +kernel
    have htitle : (x.1.sessions "a").state.forest.mainTitle = none := by decide +kernel
    obtain ⟨r, hr, hrname⟩ := Option.map_eq_some_iff.mp hname
    have hsame := hagrees "a" ⟨by decide +kernel, by decide +kernel, by decide +kernel,
      by decide +kernel, by decide +kernel⟩ r hr
    rw [hrname, htitle] at hsame
    exact Option.some_ne_none _ hsame
  · exact titling_sound 180 (G := fun x l => x.1.Minted l) (fun _ _ hG => hG) y (.supervise 4) z
      trivial (by decide +kernel) (Option.some_get _).symm
  · exact hkept "a" (by decide +kernel) (by decide +kernel)

end Horsie.Account
