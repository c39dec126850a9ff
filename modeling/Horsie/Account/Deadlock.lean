import Horsie.Account.Supervisor

/-!
# Whether a supervisor and a session wait for each other

They do once the supervisor sends a request to a session that waits for it, or that has a command
ahead of the request which will have it wait (`SessionActor.Blocked`). The titles that no request
overtakes are harmless, and so the two never meet exactly as long as no request finds a session
blocked (`World.Clear`).
-/

namespace Horsie.Account

open Lib Session

/-! ## Waiting -/

/-- Whether a command ahead of the first request in a mailbox will ask the supervisor. -/
def asksBefore (id : String) : SessionState → List SessionCommand → Bool
  | _, [] => false
  | s, c :: rest =>
    if c.isRequest then false
    else (c.asks s).isSome || asksBefore id (s.applyAll (c.journals id s)) rest

/-- The session waits for the supervisor, or will before it comes to a request. -/
def SessionActor.Blocked (id : String) (a : SessionActor) : Prop :=
  a.asking.isSome = true ∨ asksBefore id a.state a.mailbox = true

instance (id : String) (a : SessionActor) : Decidable (a.Blocked id) :=
  inferInstanceAs (Decidable (_ ∨ _))

def SessionActor.isAsked (a : SessionActor) : Bool := a.mailbox.any (·.isRequest)

namespace World

/-- The session the supervisor waits for. -/
def awaited (w : World) : Option String :=
  match w.phase with
  | .waiting errand => some errand.session
  | .idle | .answered _ _ => none

/-- The supervisor waits for a session that waits for it, or will before it comes to answer. -/
def Deadlocked (w : World) : Prop := ∃ id ∈ w.awaited, (w.sessions id).Blocked id

def summoned (w : World) (timeout now : ℕ) : SupervisorCommand → Option String
  | .delete id => if w.knows id then some id else none
  | .tick => (w.candidates timeout now).find? w.resident
  | .shutdown => w.loaded.find? w.resident
  | .create _ _ _ _ _ | .userMessage _ _ | .relay _ _ | .sessionStatusChanged _ _
  | .renameSession _ _ | .setSessionTitle _ _ | .publishSessionTitle _ _ => none

def summonedNext (w : World) (errand : Errand) (answer : Option Bool) : Option String :=
  match errand with
  | .delete _ => none
  | .sweep _ _ rest => rest.find? (w.settle errand answer).resident

/-- The session the supervisor sends a request in a step. -/
def requested (timeout : ℕ) (w : World) : Label → Option String
  | .supervise now => w.inbox.head?.bind (w.summoned timeout now)
  | .proceed =>
    match w.phase with
    | .answered errand answer => w.summonedNext errand answer
    | .idle | .waiting _ => none
  | .command _ | .send _ _ | .session _ => none

/-- A request finds its session not blocked. -/
def Clear (timeout : ℕ) (w : World) (l : Label) : Prop :=
  ∀ id ∈ w.requested timeout l, ¬(w.sessions id).Blocked id

instance (w : World) : Decidable w.Deadlocked :=
  match h : w.awaited with
  | none => .isFalse fun ⟨_, hid, _⟩ => by simp [h] at hid
  | some id => decidable_of_iff ((w.sessions id).Blocked id) (by simp [Deadlocked, h])

instance (timeout : ℕ) (w : World) (l : Label) : Decidable (w.Clear timeout l) :=
  match h : w.requested timeout l with
  | none => .isTrue fun _ hid => by simp [h] at hid
  | some id => decidable_of_iff (¬(w.sessions id).Blocked id) (by simp [Clear, h])

end World

/-! ## Mailboxes -/

section

variable {id : String} {s : SessionState} {a : SessionActor} {c : SessionCommand}
  {mailbox sent : List SessionCommand}

theorem asksBefore_append (h : mailbox.any (·.isRequest) = true) :
    asksBefore id s (mailbox ++ sent) = asksBefore id s mailbox := by
  induction mailbox generalizing s with
  | nil => cases h
  | cons c rest ih =>
    simp only [List.cons_append, asksBefore]
    by_cases hc : c.isRequest = true
    · rw [if_pos hc, if_pos hc]
    · rw [List.any_cons, Bool.or_eq_true, or_iff_right hc] at h
      rw [ih h]

theorem asksBefore_request (h : c.isRequest = true) :
    asksBefore id s (mailbox ++ [c]) = asksBefore id s mailbox := by
  induction mailbox generalizing s with
  | nil => simp [asksBefore, h]
  | cons d rest ih =>
    simp only [List.cons_append, asksBefore]
    rw [ih]

theorem blocked_request (h : c.isRequest = true) : (a.push c).Blocked id ↔ a.Blocked id := by
  unfold SessionActor.Blocked SessionActor.push
  rw [asksBefore_request h]

theorem blocked_push (h : a.isAsked = true) : (a.push c).Blocked id ↔ a.Blocked id := by
  unfold SessionActor.Blocked SessionActor.push
  rw [asksBefore_append h]

theorem isAsked_request (h : c.isRequest = true) : (a.push c).isAsked = true := by
  simp [SessionActor.isAsked, SessionActor.push, h]

theorem isAsked_push (h : a.isAsked = true) : (a.push c).isAsked = true := by
  unfold SessionActor.isAsked at h ⊢
  rw [SessionActor.push, List.any_append, h]
  rfl

end

/-! ## What a handler of the supervisor leaves -/

namespace World

variable {w t : World} {timeout now : ℕ} {id : String}

/-- A handler of the supervisor ends up waiting for `target`, to whom it sent a request, or for
nobody. -/
structure Summons (w t : World) (target : Option String) : Prop where
  awaited : t.awaited = target
  sent : ∀ id ∈ target, ∃ c, c.isRequest = true ∧ t.sessions id = (w.sessions id).push c

theorem Summons.nobody (h : t.phase = .idle) : w.Summons t none where
  awaited := by rw [World.awaited, h]
  sent _ hid := absurd hid (by simp)

theorem Summons.deadlocked_iff {target : Option String} (h : w.Summons t target) :
    t.Deadlocked ↔ ∃ id ∈ target, (w.sessions id).Blocked id := by
  unfold Deadlocked
  rw [h.awaited]
  refine exists_congr fun id => and_congr_right fun hid => ?_
  obtain ⟨c, hc, hsent⟩ := h.sent id hid
  rw [hsent, blocked_request hc]

theorem request_isRequest (errand : Errand) : errand.request.isRequest = true := by
  cases errand <;> rfl

theorem summons_await {errand : Errand} (h : t.sessions = w.sessions) :
    w.Summons (t.await errand) (some errand.session) where
  awaited := rfl
  sent id hid := by
    cases hid
    refine ⟨errand.request, request_isRequest errand, ?_⟩
    rw [← h]
    exact Function.update_self ..

theorem summons_sweep {why : Sweep} {ids : List String} (h : t.sessions = w.sessions) :
    w.Summons (t.sweep why ids) (ids.find? t.resident) := by
  induction ids with
  | nil => exact .nobody rfl
  | cons id rest ih =>
    rw [sweep, List.find?_cons]
    cases hr : t.resident id with
    | true => exact summons_await h
    | false => exact ih

theorem summons_supervise {c : SupervisorCommand} (h : w.phase = .idle) :
    w.Summons (w.supervise timeout now c) (w.summoned timeout now c) := by
  cases c with
  | delete id =>
    simp only [supervise, summoned]
    by_cases hk : w.knows id = true
    · rw [if_pos hk, if_pos hk]
      exact summons_await rfl
    · rw [if_neg hk, if_neg hk]
      exact .nobody h
  | tick => exact summons_sweep rfl
  | shutdown => exact summons_sweep rfl
  | userMessage id m =>
    apply Summons.nobody
    simp only [supervise]
    split <;> exact h
  | relay id handler =>
    apply Summons.nobody
    simp only [supervise]
    split <;> exact h
  | setSessionTitle id name =>
    apply Summons.nobody
    simp only [supervise]
    split
    · exact h
    · split_ifs <;> exact h
  | create | sessionStatusChanged | renameSession | publishSessionTitle => exact .nobody h

theorem settle_sessions (errand : Errand) (answer : Option Bool) :
    (w.settle errand answer).sessions = w.sessions := by
  unfold settle
  split <;> rfl

variable {answer : Option Bool}

theorem summons_proceed {errand : Errand} :
    w.Summons (w.proceed errand answer) (w.summonedNext errand answer) := by
  cases errand with
  | delete id => exact .nobody rfl
  | sweep why id rest => exact summons_sweep (settle_sessions ..)

/-! ## What a handler of a session leaves -/

theorem awaited_reply :
    (w.reply id answer).awaited = if w.awaited = some id then none else w.awaited := by
  unfold reply
  cases hp : w.phase with
  | idle | answered => simp [awaited, hp]
  | waiting errand =>
    by_cases h : errand.session = id
    · simp [awaited, hp, h]
    · simp [awaited, hp, h]

theorem sessions_reply : (w.reply id answer).sessions = w.sessions := by
  unfold reply
  split
  · split_ifs <;> rfl
  · rfl
  · rfl

variable {c : SessionCommand} {rest : List SessionCommand}

theorem sessions_serve_ne {other : String}
    (h : other ≠ id) : (w.serve id c rest).sessions other = w.sessions other := by
  unfold serve
  dsimp only
  split
  · exact Function.update_of_ne h ..
  · split_ifs
    · rw [sessions_reply]
      exact Function.update_of_ne h ..
    · exact Function.update_of_ne h ..

/-- A session answers its request, and otherwise whoever is waited for is waited for still. -/
theorem awaited_serve :
    (w.serve id c rest).awaited =
      if c.isRequest = true ∧ w.awaited = some id then none else w.awaited := by
  unfold serve
  dsimp only
  cases hask : c.asks (w.sessions id).state with
  | some title =>
    have hc : c.isRequest = false := by
      cases c with
      | prepareOffload | delete => exact absurd hask (by simp [SessionCommand.asks])
      | create | userMessage | setTitle | titleSet | other => rfl
    simp only [hc, Bool.false_eq_true, false_and, if_false]
    rfl
  | none =>
    by_cases hc : c.isRequest = true
    · simp only [hc, if_true, true_and]
      exact awaited_reply
    · simp only [hc]
      rfl

/-- A session that is not blocked handles its next command without waiting. -/
theorem sessions_serve_self
    (hc : c.isRequest = false) (hask : c.asks (w.sessions id).state = none) :
    (w.serve id c rest).sessions id =
      { w.sessions id with
        state := (w.sessions id).state.applyAll (c.journals id (w.sessions id).state)
        mailbox := rest ++ c.sends (w.sessions id).state } := by
  simp only [serve, hask, hc, Bool.false_eq_true, if_false]
  exact Function.update_self ..

/-! ## What each step is -/

theorem step?_command {c : SupervisorCommand} (h : w.step? timeout (.command c) = some t) :
    (∀ id name, c ≠ .renameSession id name) ∧ t = { w with inbox := w.inbox ++ [c] } := by
  cases c with
  | renameSession => exact absurd h (by simp [step?])
  | create | userMessage | relay | delete | tick | shutdown | sessionStatusChanged
  | setSessionTitle | publishSessionTitle =>
    cases h
    exact ⟨fun _ _ => SupervisorCommand.noConfusion, rfl⟩

theorem step?_send (h : w.step? timeout (.send id c) = some t) :
    c.isRequest = false ∧ t = w.tell id c := by
  simp only [step?] at h
  split_ifs at h with hc
  exact ⟨by simpa using hc, (Option.some.inj h).symm⟩

theorem step?_supervise (h : w.step? timeout (.supervise now) = some t) :
    ∃ c rest, w.phase = .idle ∧ w.inbox = c :: rest ∧
      t = { w with inbox := rest }.supervise timeout now c := by
  simp only [step?] at h
  split at h
  · rename_i c rest hphase hinbox
    exact ⟨c, rest, hphase, hinbox, (Option.some.inj h).symm⟩
  · cases h

theorem step?_proceed (h : w.step? timeout .proceed = some t) :
    ∃ errand answer, w.phase = .answered errand answer ∧ t = w.proceed errand answer := by
  simp only [step?] at h
  split at h
  · rename_i errand answer hphase
    exact ⟨errand, answer, hphase, (Option.some.inj h).symm⟩
  · cases h
  · cases h

theorem step?_session (h : w.step? timeout (.session id) = some t) :
    ∃ c rest, (w.sessions id).asking = none ∧ (w.sessions id).mailbox = c :: rest ∧
      t = w.serve id c rest := by
  simp only [step?] at h
  split at h
  · rename_i c rest hasking hmailbox
    exact ⟨c, rest, hasking, hmailbox, (Option.some.inj h).symm⟩
  · cases h

/-! ## Every run -/

/-- A request is in the mailbox of the session that is waited for. -/
def Asked (w : World) : Prop := ∀ id ∈ w.awaited, (w.sessions id).isAsked = true

theorem Summons.asked {target : Option String} (h : w.Summons t target) : t.Asked := by
  intro id hid
  rw [h.awaited] at hid
  obtain ⟨c, hc, hsent⟩ := h.sent id hid
  rw [hsent]
  exact isAsked_request hc

theorem step_cases {l : Label} (h : (account timeout).Step w l t) :
    (w.Summons t (w.requested timeout l)) ∨
    (w.requested timeout l = none ∧ t.awaited = w.awaited ∧
      ∀ id, t.sessions id = w.sessions id ∨ ∃ c, t.sessions id = (w.sessions id).push c) ∨
    (w.requested timeout l = none ∧ ∃ id c rest, (w.sessions id).asking = none ∧
      (w.sessions id).mailbox = c :: rest ∧ t = w.serve id c rest) := by
  replace h : w.step? timeout l = some t := h
  cases l with
  | command c =>
    obtain ⟨-, rfl⟩ := step?_command h
    exact .inr (.inl ⟨rfl, rfl, fun _ => .inl rfl⟩)
  | send id c =>
    obtain ⟨-, rfl⟩ := step?_send h
    refine .inr (.inl ⟨rfl, rfl, fun other => ?_⟩)
    by_cases ho : other = id
    · subst ho
      exact .inr ⟨c, Function.update_self ..⟩
    · exact .inl (Function.update_of_ne ho ..)
  | supervise now =>
    obtain ⟨c, rest, hphase, hinbox, rfl⟩ := step?_supervise h
    left
    have hreq : w.requested timeout (.supervise now) =
        { w with inbox := rest }.summoned timeout now c := by
      rw [requested, hinbox]
      rfl
    rw [hreq]
    have hs := @summons_supervise { w with inbox := rest } timeout now c hphase
    exact ⟨hs.awaited, hs.sent⟩
  | proceed =>
    obtain ⟨errand, answer, hphase, rfl⟩ := step?_proceed h
    left
    have hreq : w.requested timeout .proceed = w.summonedNext errand answer := by
      rw [requested, hphase]
    rw [hreq]
    exact summons_proceed
  | session id =>
    obtain ⟨c, rest, hasking, hmailbox, rfl⟩ := step?_session h
    exact .inr (.inr ⟨rfl, id, c, rest, hasking, hmailbox, rfl⟩)

theorem asked_of_reachable (h : (account timeout).Reachable w) : w.Asked := by
  refine h.invariant ?_ fun w l t _ hw hstep => ?_
  · rintro w rfl id hid
    exact absurd hid (by simp [init, awaited])
  · rcases step_cases hstep with hs | ⟨-, ha, hs⟩ | ⟨-, id, c, rest, -, hmail, rfl⟩
    · exact hs.asked
    · intro id hid
      have hasked := hw id (ha ▸ hid)
      rcases hs id with he | ⟨c, he⟩
      · rwa [he]
      · rw [he]
        exact isAsked_push hasked
    · intro other hother
      rw [awaited_serve] at hother
      split_ifs at hother with hc
      · cases hother
      · have hasked := hw other hother
        by_cases ho : other = id
        · subst ho
          have hreq : c.isRequest = false := by
            by_contra hreq
            exact hc ⟨by simpa using hreq, hother⟩
          rw [SessionActor.isAsked, hmail, List.any_cons, hreq, Bool.false_or] at hasked
          cases hask : c.asks (w.sessions other).state with
          | some title => simpa [serve, hask, setSession, SessionActor.isAsked] using hasked
          | none =>
            rw [sessions_serve_self hreq hask, SessionActor.isAsked, List.any_append, hasked]
            rfl
        · rwa [sessions_serve_ne ho]

/-- A step from where nobody is deadlocked leads to a deadlock exactly if its request finds the
session blocked. -/
theorem deadlocked_step (hr : (account timeout).Reachable w) (hw : ¬w.Deadlocked) {l : Label}
    (h : (account timeout).Step w l t) : ¬t.Deadlocked ↔ w.Clear timeout l := by
  rcases step_cases h with hs | ⟨hreq, ha, hs⟩ | ⟨hreq, id, c, rest, hasking, hmail, rfl⟩
  · rw [hs.deadlocked_iff]
    simp only [Clear, not_exists, not_and]
  · refine iff_of_true ?_ (by simp [Clear, hreq])
    rintro ⟨id, hid, hb⟩
    rw [ha] at hid
    refine hw ⟨id, hid, ?_⟩
    rcases hs id with he | ⟨c, he⟩
    · rwa [he] at hb
    · rwa [he, blocked_push (asked_of_reachable hr id hid)] at hb
  · refine iff_of_true ?_ (by simp [Clear, hreq])
    rintro ⟨other, hother, hb⟩
    rw [awaited_serve] at hother
    split_ifs at hother with hc
    · cases hother
    · have hasked := asked_of_reachable hr other hother
      by_cases ho : other = id
      · subst ho
        have hreq : c.isRequest = false := by
          by_contra hreq
          exact hc ⟨by simpa using hreq, hother⟩
        have hfree : ¬(w.sessions other).Blocked other := fun hb => hw ⟨other, hother, hb⟩
        rw [SessionActor.Blocked, hmail, asksBefore, hreq, hasking] at hfree
        rw [SessionActor.isAsked, hmail, List.any_cons, hreq, Bool.false_or] at hasked
        cases hask : c.asks (w.sessions other).state with
        | some title => simp [hask] at hfree
        | none =>
          rw [sessions_serve_self hreq hask, SessionActor.Blocked, asksBefore_append hasked] at hb
          simp [hask, hasking] at hfree hb
          rw [hfree] at hb
          exact Bool.false_ne_true hb
      · rw [sessions_serve_ne ho] at hb
        exact hw ⟨other, hother, hb⟩

end World

/-- The supervisor and a session never wait for each other in a run exactly if no request of the
run finds its session blocked. -/
theorem deadlock_exact (timeout : ℕ) {w : World} {tr : List (World × Label × World)}
    (h : (account timeout).Exec .init tr w) :
    (∀ x ∈ tr, ¬x.2.2.Deadlocked) ↔ ∀ x ∈ tr, x.1.Clear timeout x.2.1 := by
  refine h.forall_iff (P := fun w => ¬w.Deadlocked) (G := World.Clear timeout) ?_ (.init rfl) ?_
  · exact fun w l t hr hw hstep => World.deadlocked_step hr hw hstep
  · rintro ⟨id, hid, -⟩
    exact absurd hid (by simp [World.init, World.awaited])

/-- A session is created and gets its first message. -/
def greeted : List Label :=
  [.command (.create "a" ⟨.agent, none⟩ none none fun _ => []), .supervise 0, .session "a",
    .session "a", .command (.userMessage "a" ⟨none, "hi", fun _ => []⟩), .supervise 1]

/-- A session that was titled by its first message is deleted, and nobody waits for nothing. -/
theorem deadlock_exact_titled : ∃ tr w, (account 180).Exec .init tr w ∧
    tr.map (·.2.1) = greeted ++ [Label.session "a", .supervise 1, .supervise 1,
      .command (.delete "a"), .supervise 2, .session "a", .proceed] ∧
    (∀ x ∈ tr, ¬x.2.2.Deadlocked) ∧ w.phase = .idle ∧ w.knows "a" = false := by
  let w := (System.steps? (System.guarded? (World.Clear 180) (World.step? 180)) .init
    (greeted ++ [Label.session "a", .supervise 1, .supervise 1, .command (.delete "a"),
      .supervise 2, .session "a", .proceed])).get (by decide +kernel)
  obtain ⟨tr, h, hl, hg⟩ := System.exec_guarded? .init (t := w)
    (Option.some_get _).symm
  exact ⟨tr, w, h, hl, (deadlock_exact 180 h).mpr hg, by decide +kernel, by decide +kernel⟩

/-- A session is deleted right after its first message. The message is ahead of the request and asks
for a title, which the supervisor has in its inbox while it waits for the session. -/
theorem deleted_while_titled : ∃ w, (account 180).Reachable w ∧ w.Deadlocked ∧
    w.phase = .waiting (.delete "a") ∧ (w.sessions "a").asking.isSome = true ∧
    w.inbox.length = 1 := by
  let w := (System.steps? (World.step? 180) .init
    (greeted ++ [Label.command (.delete "a"), .supervise 2, .session "a"])).get (by decide +kernel)
  obtain ⟨tr, h, -⟩ := System.exec_steps? .init (t := w) (Option.some_get _).symm
  exact ⟨w, h.reachable (.init rfl), by decide +kernel, by decide +kernel, by decide +kernel,
    by decide +kernel⟩

end Horsie.Account
