import Horsie.Agent.Message
import Horsie.Lib.Take
import Horsie.Lib.Transition

/-!
# A server on its standard streams

A server process is spoken to in lines of JSON: a request carries an id under which the sending end
of its caller's channel is kept, and one reader takes it out when a line with that id comes. The
server numbers requests of its own as it likes, and its lines may be anything; a caller may be
dropped wherever it waits.

The model numbers the requests in the order in which they are entered, from one. A line is read
when it is written, and the reader ends with the output.
-/

namespace Horsie.Mcp.Stdio

open Horsie.Lib
open Agent (Value)

/-! ## Lines -/

inductive McpError
  | transport (message : String)
  | protocol (message : String)
deriving DecidableEq

inductive Line
  | notUtf8
  | text (line : String)
deriving DecidableEq

/-- A number that is written in digits alone and fits in 64 bits. -/
def asU64 : Value → Option ℕ
  | .num text =>
    if !text.isEmpty && text.toList.all Char.isDigit then
      let n := Nat.ofDigitChars 10 text.toList 0
      if n < 2 ^ 64 then some n else none
    else none
  | .null | .bool _ | .str _ | .arr _ | .obj _ => none

def idOf (msg : Value) : Option ℕ := (msg.get "id").bind asU64

/-- A response's `result`, or its `error`. -/
def extract (msg : Value) : Except McpError Value :=
  match msg.get "error" with
  | some error =>
    .error (.protocol (((error.get "message").bind Value.asStr).getD "unknown error"))
  | none => .ok ((msg.get "result").getD .null)

/-- A message that asks for something is no response. -/
def isRequest (msg : Value) : Bool := (msg.get "method").isSome

/-! ## Callers -/

/-- Where a caller stands in `request`. -/
inductive Stage
  | entered
  | written
  | unwritten (error : String)
  | timedOut
  | returned (result : Except McpError Value)
  | dropped
deriving DecidableEq

structure Caller where
  method : String
  late : Bool
  stage : Stage
  reply : Option (Except McpError Value)
deriving DecidableEq

namespace Caller

def live (c : Caller) : Bool :=
  match c.stage with
  | .returned _ | .dropped => false
  | .entered | .written | .unwritten _ | .timedOut => true

def waits (c : Caller) : Bool := (c.stage = .entered || c.stage = .written) && c.reply.isNone

end Caller

/-! ## The transport -/

structure Transport where
  waiters : List ℕ
  callers : List Caller
  reading : Bool
  alive : Bool
deriving DecidableEq

/-- What a caller does next. -/
inductive Act
  | write (error : Option String)
  | wake
  | timeout
  /-- After a failed write or too long a wait it removes its waiter and returns. -/
  | remove
  | drop
deriving DecidableEq

inductive Label
  /-- `request` enters its waiter. -/
  | request (method : String)
  | caller (i : ℕ) (a : Act)
  | line (line : Line)
  | exit
deriving DecidableEq

namespace Transport

def start : Transport := ⟨[], [], true, true⟩

/-- The caller `i` goes on at a stage. -/
def move (s : Transport) (i : ℕ) (c : Caller) (stage : Stage) : Transport :=
  { s with callers := s.callers.set i { c with stage } }

def take (s : Transport) (id : ℕ) : Transport := { s with waiters := s.waiters.filter (· ≠ id) }

/-- The waiter of the caller `i` taken out and sent a result, where there is one. -/
def settle (s : Transport) (i : ℕ) (result : Except McpError Value) : Transport :=
  if i + 1 ∈ s.waiters then
    { s.take (i + 1) with callers := s.callers.modify i fun c => { c with reply := some result } }
  else s

/-- What the reader leaves when it ends: every waiter was sent an error. -/
def drain (s : Transport) : Transport where
  waiters := []
  callers := s.callers.mapIdx fun i c =>
    if i + 1 ∈ s.waiters then
      { c with reply := some (.error (.transport "the MCP server exited")) }
    else c
  reading := false
  alive := s.alive

/-- What the reader does with a line. A number that nobody waits for is that of no caller. -/
def read (parse : String → Option Value) (s : Transport) : Line → Transport
  | .notUtf8 => s.drain
  | .text line =>
    match parse line with
    | none => s
    | some msg =>
      match idOf msg with
      | none | some 0 => s
      | some (i + 1) => s.settle i (extract msg)

def act? (s : Transport) (i : ℕ) (c : Caller) : Act → Option Transport
  | .write error =>
    if c.stage = .entered then some (s.move i c (error.elim .written .unwritten)) else none
  | .wake =>
    if c.stage = .written then c.reply.map fun result => s.move i c (.returned result) else none
  | .timeout =>
    if c.stage = .written ∧ c.reply = none then some (s.move i c .timedOut) else none
  | .remove =>
    match c.stage with
    | .unwritten error => some ((s.take (i + 1)).move i c (.returned (.error (.transport error))))
    | .timedOut =>
      some ((s.take (i + 1)).move i c (.returned (.error (.transport
        s!"the MCP server did not answer {c.method} within 30s"))))
    | .entered | .written | .returned _ | .dropped => none
  | .drop => if c.live then some (s.move i c .dropped) else none

def step? (parse : String → Option Value) (s : Transport) : Label → Option Transport
  | .request method =>
    some
      { s with
        waiters := s.waiters ++ [s.callers.length + 1]
        callers := s.callers ++ [⟨method, !s.alive, .entered, none⟩] }
  | .caller i a => s.callers[i]?.bind fun c => s.act? i c a
  | .line line => if s.alive then some (if s.reading then s.read parse line else s) else none
  | .exit =>
    if s.alive then some { (if s.reading then s.drain else s) with alive := false } else none

end Transport

/-- The transport, with the JSON reader `parse`. -/
abbrev transport (parse : String → Option Value) : System Transport Label :=
  System.ofStep? .start (Transport.step? parse)

namespace Transport

/-! ## Replies reach their requests, and only them -/

variable {parse : String → Option Value} {s t : Transport} {i : ℕ} {c : Caller} {stage : Stage}
  {result : Except McpError Value}

/-- A step in which a caller that waits is sent the response of its id or the error of a reader that
ends, and returns what it was sent or an error; in which a response reaches the caller that waits
for it; in which no caller has waited out the timeout that asked after the output closed; and after
which no waiter is that of a caller that is gone. -/
structure Right (parse : String → Option Value) (s : Transport) (l : Label) (t : Transport) :
    Prop where
  sent : ∀ (i : ℕ) (c d : Caller) (result : Except McpError Value), s.callers[i]? = some c →
    c.waits = true → t.callers[i]? = some d → d.reply = some result →
    (∃ line msg, l = .line (.text line) ∧ parse line = some msg ∧ isRequest msg = false ∧
      idOf msg = some (i + 1) ∧ result = extract msg) ∨
    (l = .exit ∨ l = .line .notUtf8) ∧ ∃ error, result = .error (.transport error)
  returned : ∀ (i : ℕ) (c d : Caller) (result : Except McpError Value), s.callers[i]? = some c →
    t.callers[i]? = some d → c.live = true → d.stage = .returned result →
    c.reply = some result ∨ ∃ error, result = .error (.transport error)
  delivered : ∀ line msg, l = .line (.text line) → parse line = some msg → isRequest msg = false →
    ∀ (i : ℕ) (c : Caller), idOf msg = some (i + 1) → s.callers[i]? = some c → c.waits = true →
    t.callers[i]? = some { c with reply := some (extract msg) }
  prompt : ∀ (i : ℕ) (c : Caller), l = .caller i .timeout → s.callers[i]? = some c →
    c.late = false
  kept : ∀ id ∈ t.waiters, ∃ i c, id = i + 1 ∧ t.callers[i]? = some c ∧ c.live = true

def waitsUnder (s : Transport) : ℕ → Bool
  | 0 => false
  | i + 1 => s.callers[i]?.any Caller.waits

/-- The server asks nothing under an id that a caller waits under, and writes only UTF-8; no caller
is dropped that has a waiter; and a request made after the output has closed cannot be written. -/
def heeds (parse : String → Option Value) (s : Transport) : Label → Bool
  | .line .notUtf8 => false
  | .line (.text line) => (parse line).all fun msg =>
      !isRequest msg || (idOf msg).all fun id => !s.waitsUnder id
  | .caller i .drop => !s.waiters.contains (i + 1)
  | .caller i (.write none) => s.callers[i]?.all fun c => !c.late
  | .caller _ (.write (some _)) | .caller _ .wake | .caller _ .timeout | .caller _ .remove
  | .request _ | .exit => true

/-- The table holds the callers that wait, and the reader runs as long as the output is open. -/
structure Sound (s : Transport) : Prop where
  waiter : ∀ id ∈ s.waiters, ∃ i c, id = i + 1 ∧ s.callers[i]? = some c ∧ c.live = true ∧
    c.reply = none
  entry : ∀ (i : ℕ) (c : Caller), s.callers[i]? = some c → c.waits = true → i + 1 ∈ s.waiters
  reading : s.alive = true → s.reading = true
  late : ∀ c ∈ s.callers, c.late = true → c.stage ≠ .written

theorem sound_start : start.Sound where
  waiter id h := absurd h List.not_mem_nil
  entry i c h := by cases h
  reading _ := rfl
  late c h := absurd h List.not_mem_nil

/-- A caller goes on at a stage where it is still there, unless it has no waiter. -/
theorem Sound.move (h : s.Sound) (hi : s.callers[i]? = some c)
    (hlive : { c with stage }.live = true ∨ i + 1 ∉ s.waiters)
    (hwaits : { c with stage }.waits = true → c.waits = true)
    (hlate : c.late = true → stage ≠ .written) : (s.move i c stage).Sound where
  waiter id hid := by
    obtain ⟨j, d, rfl, hd, hdlive, hreply⟩ := h.waiter id hid
    by_cases hij : j = i
    · subst hij
      cases hi.symm.trans hd
      refine ⟨j, { c with stage }, rfl, ?_, hlive.resolve_right (fun hno => hno hid), hreply⟩
      exact List.getElem?_set_self (List.getElem?_eq_some_iff.mp hi).1
    · exact ⟨j, d, rfl, (List.getElem?_set_ne (Ne.symm hij)).trans hd, hdlive, hreply⟩
  entry j d hd hw := by
    rcases getElem?_set_cases hd with ⟨rfl, rfl⟩ | ⟨-, hd⟩
    · exact h.entry _ c hi (hwaits hw)
    · exact h.entry j d hd hw
  reading := h.reading
  late d hd hl := by
    obtain ⟨j, hd⟩ := List.mem_iff_getElem?.mp hd
    rcases getElem?_set_cases hd with ⟨-, rfl⟩ | ⟨-, hd⟩
    · exact hlate hl
    · exact h.late d (List.mem_of_getElem? hd) hl

theorem mem_take {id k : ℕ} : k ∈ (s.take id).waiters ↔ k ∈ s.waiters ∧ k ≠ id := by
  simp [Transport.take]

theorem Sound.take (h : s.Sound) (hi : s.callers[i]? = some c) (hw : c.waits = false) :
    (s.take (i + 1)).Sound where
  waiter id hid := h.waiter id (mem_take.mp hid).1
  entry j d hd hwaits := by
    refine mem_take.mpr ⟨h.entry j d hd hwaits, fun hij => ?_⟩
    obtain rfl : j = i := Nat.succ.inj hij
    cases hi.symm.trans hd
    rw [hw] at hwaits
    cases hwaits
  reading := h.reading
  late := h.late

theorem Sound.settle (h : s.Sound) (i : ℕ) (result : Except McpError Value) :
    (s.settle i result).Sound := by
  unfold Transport.settle
  split
  · constructor
    · intro id hid
      obtain ⟨hid, hne⟩ := mem_take.mp hid
      obtain ⟨j, d, rfl, hd, hrest⟩ := h.waiter id hid
      have hij : i ≠ j := fun hij => hne (by rw [hij])
      exact ⟨j, d, rfl, (List.getElem?_modify_ne _ _ hij).trans hd, hrest⟩
    · intro j d hd hw
      rcases getElem?_modify_cases hd with ⟨-, e, -, rfl⟩ | ⟨hj, hd⟩
      · simp [Caller.waits] at hw
      · exact mem_take.mpr ⟨h.entry j d hd hw, fun hij => hj (Nat.succ.inj hij)⟩
    · exact h.reading
    · intro d hd hl
      obtain ⟨j, hd⟩ := List.mem_iff_getElem?.mp hd
      rcases getElem?_modify_cases hd with ⟨-, e, he, rfl⟩ | ⟨-, hd⟩
      · exact h.late e (List.mem_of_getElem? he) hl
      · exact h.late d (List.mem_of_getElem? hd) hl
  · exact h

theorem drain_callers (j : ℕ) : s.drain.callers[j]? = s.callers[j]?.map fun c =>
    if j + 1 ∈ s.waiters then
      { c with reply := some (.error (.transport "the MCP server exited")) }
    else c := by
  rw [Transport.drain, List.getElem?_mapIdx]

variable {d : Caller}

theorem drain_waits (h : s.Sound) (hd : s.drain.callers[i]? = some d) :
    d.waits = false := by
  obtain ⟨c, hc, rfl⟩ := Option.map_eq_some_iff.mp ((drain_callers i).symm.trans hd)
  split
  · simp [Caller.waits]
  · rename_i hno
    exact Bool.eq_false_iff.mpr fun hw => hno (h.entry i c hc hw)

theorem Sound.exited (h : s.Sound) :
    Sound { (if s.reading then s.drain else s) with alive := false } := by
  split
  · refine ⟨fun id hid => absurd hid List.not_mem_nil, fun i d hd hw => ?_, fun hf => ?_, ?_⟩
    · rw [drain_waits h hd] at hw
      cases hw
    · cases hf
    · intro d hd hl
      obtain ⟨j, hd⟩ := List.mem_iff_getElem?.mp hd
      obtain ⟨c, hc, rfl⟩ := Option.map_eq_some_iff.mp ((drain_callers j).symm.trans hd)
      have hlate := h.late c (List.mem_of_getElem? hc)
      split at hl
      · rw [if_pos ‹_›]
        exact hlate hl
      · rw [if_neg ‹_›]
        exact hlate hl
  · exact ⟨h.waiter, h.entry, fun hf => Bool.noConfusion hf, h.late⟩

/-! ### What a caller does -/

/-- A caller goes on at a stage where it is still there; it returns with what it was sent; it
removes its waiter and returns an error; or it is dropped. -/
inductive Moved (s : Transport) (i : ℕ) (c : Caller) (a : Act) : Transport → Prop
  | stay (stage : Stage) (hlive : { c with stage }.live = true)
      (hwaits : { c with stage }.waits = true → c.waits = true)
      (hlate : stage = .written → a = .write none) (htime : a = .timeout → c.stage = .written) :
      Moved s i c a (s.move i c stage)
  | wake (result : Except McpError Value) (hr : c.reply = some result) (ha : a = .wake) :
      Moved s i c a (s.move i c (.returned result))
  | remove (error : String) (hw : c.waits = false) (ha : a = .remove) :
      Moved s i c a ((s.take (i + 1)).move i c (.returned (.error (.transport error))))
  | drop (ha : a = .drop) : Moved s i c a (s.move i c .dropped)

variable {a : Act}

theorem moved_of_act? (h : s.act? i c a = some t) : Moved s i c a t := by
  cases a with
  | write error =>
    obtain ⟨hstage, h⟩ := Option.ite_none_right_eq_some.mp h
    cases h
    cases error with
    | none =>
      exact .stay _ rfl (by simp [Caller.waits, hstage]) (fun _ => rfl) (fun ha => by cases ha)
    | some error =>
      exact .stay _ rfl (by simp [Caller.waits]) (fun hw => by cases hw) (fun ha => by cases ha)
  | wake =>
    obtain ⟨-, h⟩ := Option.ite_none_right_eq_some.mp h
    obtain ⟨result, hr, rfl⟩ := Option.map_eq_some_iff.mp h
    exact .wake result hr rfl
  | timeout =>
    obtain ⟨⟨hstage, -⟩, h⟩ := Option.ite_none_right_eq_some.mp h
    cases h
    exact .stay _ rfl (by simp [Caller.waits]) (fun hw => by cases hw) fun _ => hstage
  | remove =>
    simp only [act?] at h
    split at h
    · rename_i hstage
      cases h
      exact .remove _ (by simp [Caller.waits, hstage]) rfl
    · rename_i hstage
      cases h
      exact .remove _ (by simp [Caller.waits, hstage]) rfl
    all_goals cases h
  | drop =>
    obtain ⟨-, h⟩ := Option.ite_none_right_eq_some.mp h
    cases h
    exact .drop rfl

theorem Sound.moved (h : s.Sound) (hi : s.callers[i]? = some c) (hm : Moved s i c a t)
    (hg : s.heeds parse (.caller i a) = true) : t.Sound := by
  cases hm with
  | stay stage hlive hwaits hlate =>
    refine h.move hi (.inl hlive) hwaits fun hl hw => ?_
    rw [hlate hw] at hg
    simp [heeds, hi, hl] at hg
  | wake result hr =>
    have hgone : i + 1 ∉ s.waiters := by
      intro hid
      obtain ⟨j, d, hj, hd, -, hreply⟩ := h.waiter _ hid
      cases hj
      cases hi.symm.trans hd
      rw [hr] at hreply
      cases hreply
    exact h.move hi (.inr hgone) (by simp [Caller.waits]) fun _ hw => by cases hw
  | remove error hw =>
    exact (h.take hi hw).move hi (.inr fun hid => (mem_take.mp hid).2 rfl) (by simp [Caller.waits])
      fun _ hw => by cases hw
  | drop ha =>
    subst ha
    have hgone : i + 1 ∉ s.waiters := by simpa [heeds] using hg
    exact h.move hi (.inr hgone) (by simp [Caller.waits]) fun _ hw => by cases hw

theorem Sound.kept (h : s.Sound) :
    ∀ id ∈ s.waiters, ∃ i c, id = i + 1 ∧ s.callers[i]? = some c ∧ c.live = true := by
  intro id hid
  obtain ⟨i, c, rfl, hc, hlive, -⟩ := h.waiter id hid
  exact ⟨i, c, rfl, hc, hlive⟩

theorem right_of_quiet {l : Label} (ht : t.Sound)
    (hsame : ∀ (i : ℕ) (c d : Caller), s.callers[i]? = some c → t.callers[i]? = some d →
      d.reply = c.reply)
    (hreturned : ∀ (i : ℕ) (c d : Caller) (result : Except McpError Value),
      s.callers[i]? = some c → t.callers[i]? = some d → c.live = true →
      d.stage = .returned result → c.reply = some result ∨
        ∃ error, result = .error (.transport error))
    (hline : ∀ line, l ≠ .line (.text line))
    (hprompt : ∀ (i : ℕ) (c : Caller), l = .caller i .timeout → s.callers[i]? = some c →
      c.late = false) : Right parse s l t where
  sent i c d result hc hw hd hreply := by
    rw [hsame i c d hc hd] at hreply
    exact absurd hw (by simp [Caller.waits, hreply])
  returned := hreturned
  delivered line msg hl := absurd hl (hline line)
  prompt := hprompt
  kept := ht.kept

theorem returned_of_live (h : d.live = true) :
    d.stage ≠ .returned result := by
  intro hstage
  rw [Caller.live, hstage] at h
  cases h

/-- A caller changes its stage alone, and returns what it was sent or an error. -/
theorem right_of_move {u : Transport} (hs : u.callers = s.callers)
    (ht : (u.move i c stage).Sound) (hi : s.callers[i]? = some c)
    (hstage : ∀ result, stage = .returned result → c.reply = some result ∨
      ∃ error, result = .error (.transport error))
    (hprompt : a = .timeout → c.late = false) :
    Right parse s (.caller i a) (u.move i c stage) := by
  have hcallers : ∀ (j : ℕ) (d e : Caller), s.callers[j]? = some d →
      (u.move i c stage).callers[j]? = some e → d = c ∧ e = { c with stage } ∨ e = d := by
    intro j d e hd he
    rw [Transport.move, hs] at he
    rcases getElem?_set_cases he with ⟨rfl, rfl⟩ | ⟨-, he⟩
    · exact .inl ⟨Option.some.inj (hd.symm.trans hi), rfl⟩
    · exact .inr (Option.some.inj (he.symm.trans hd))
  refine right_of_quiet ht (fun j d e hd he => ?_) (fun j d e result hd he hlive hr => ?_)
    (fun _ hl => by cases hl) fun j d hl hd => ?_
  · rcases hcallers j d e hd he with ⟨rfl, rfl⟩ | rfl <;> rfl
  · rcases hcallers j d e hd he with ⟨rfl, rfl⟩ | rfl
    · exact hstage result hr
    · exact absurd hr (returned_of_live hlive)
  · cases hl
    cases hi.symm.trans hd
    exact hprompt rfl

theorem Sound.right_moved (h : s.Sound) (hi : s.callers[i]? = some c)
    (hm : Moved s i c a t) (hg : s.heeds parse (.caller i a) = true) :
    Right parse s (.caller i a) t := by
  have ht := h.moved hi hm hg
  cases hm with
  | stay stage hlive hwaits hlate htime =>
    refine right_of_move rfl ht hi (fun result hr => absurd hr (returned_of_live hlive)) ?_
    exact fun ha => Bool.eq_false_iff.mpr fun hl =>
      h.late c (List.mem_of_getElem? hi) hl (htime ha)
  | wake result hreply ha =>
    refine right_of_move rfl ht hi (fun result' hr => .inl ?_) fun htime => ?_
    · exact hreply.trans (congrArg some (Stage.returned.inj hr))
    · cases ha.symm.trans htime
  | remove error hw ha =>
    refine right_of_move (u := s.take (i + 1)) rfl ht hi (fun result hr => .inr ⟨error, ?_⟩)
      fun htime => ?_
    · exact (Stage.returned.inj hr).symm
    · cases ha.symm.trans htime
  | drop ha =>
    refine right_of_move rfl ht hi (fun result hr => by cases hr) fun htime => ?_
    cases ha.symm.trans htime

/-! ### What is entered, written and closed -/

theorem Sound.requested (h : s.Sound) (method : String)
    (ht : s.step? parse (.request method) = some t) :
    t.Sound ∧ Right parse s (.request method) t := by
  cases ht
  have hsound : Sound { s with
      waiters := s.waiters ++ [s.callers.length + 1]
      callers := s.callers ++ [⟨method, !s.alive, .entered, none⟩] } := by
    refine ⟨fun id hid => ?_, fun j d hd hw => ?_, h.reading, fun d hd hl => ?_⟩
    · rcases List.mem_append.mp hid with hid | hid
      · obtain ⟨j, d, rfl, hd, hrest⟩ := h.waiter id hid
        exact ⟨j, d, rfl, getElem?_snoc_of_some hd, hrest⟩
      · obtain rfl := List.mem_singleton.mp hid
        exact ⟨_, _, rfl, List.getElem?_concat_length, rfl, rfl⟩
    · rcases getElem?_snoc_cases hd with hd | ⟨rfl, -⟩
      · exact List.mem_append_left _ (h.entry j d hd hw)
      · exact List.mem_append_right _ (List.mem_singleton_self _)
    · rcases List.mem_append.mp hd with hd | hd
      · exact h.late d hd hl
      · obtain rfl := List.mem_singleton.mp hd
        exact Stage.noConfusion
  have hcallers : ∀ (j : ℕ) (d e : Caller), s.callers[j]? = some d →
      (s.callers ++ [⟨method, !s.alive, .entered, none⟩])[j]? = some e → e = d :=
    fun j d e hd he => Option.some.inj (he.symm.trans (getElem?_snoc_of_some hd))
  refine ⟨hsound, right_of_quiet hsound (fun j d e hd he => ?_)
    (fun j d e result hd he hlive hr => ?_) (fun _ hl => by cases hl) fun _ _ hl => by cases hl⟩
  · rw [hcallers j d e hd he]
  · obtain rfl := hcallers j d e hd he
    exact absurd hr (returned_of_live hlive)

/-- The result for an id goes to the caller that waits under it, and to nobody else. -/
theorem settle_callers {j : ℕ} {e : Caller}
    (hd : s.callers[j]? = some d) (he : (s.settle i result).callers[j]? = some e) :
    j = i ∧ e = { d with reply := some result } ∨ e = d := by
  unfold Transport.settle at he
  split at he
  · rcases getElem?_modify_cases he with ⟨rfl, e', he', rfl⟩ | ⟨-, he⟩
    · cases he'.symm.trans hd
      exact .inl ⟨rfl, rfl⟩
    · exact .inr (Option.some.inj (he.symm.trans hd))
  · exact .inr (Option.some.inj (he.symm.trans hd))

theorem settle_of_waits (h : s.Sound) (hi : s.callers[i]? = some c) (hw : c.waits = true)
    (result : Except McpError Value) :
    (s.settle i result).callers[i]? = some { c with reply := some result } := by
  unfold Transport.settle
  rw [if_pos (h.entry i c hi hw)]
  show (s.callers.modify i _)[i]? = _
  rw [List.getElem?_modify_eq, hi]
  rfl

theorem read_text (line : String) :
    (s.read parse (.text line) = s ∧ ∀ msg i, parse line = some msg → idOf msg ≠ some (i + 1)) ∨
      ∃ msg i, parse line = some msg ∧ idOf msg = some (i + 1) ∧
        s.read parse (.text line) = s.settle i (extract msg) := by
  cases hmsg : parse line with
  | none =>
    refine .inl ⟨?_, fun msg i h => by cases h⟩
    simp only [Transport.read, hmsg]
  | some msg =>
    cases hid : idOf msg with
    | none =>
      refine .inl ⟨?_, fun msg' i h => ?_⟩
      · simp only [Transport.read, hmsg, hid]
      · cases h
        rw [hid]
        exact fun h => by cases h
    | some id =>
      cases id with
      | zero =>
        refine .inl ⟨?_, fun msg' i h => ?_⟩
        · simp only [Transport.read, hmsg, hid]
        · cases h
          rw [hid]
          exact fun h => Nat.noConfusion (Option.some.inj h)
      | succ i =>
        refine .inr ⟨msg, i, rfl, hid, ?_⟩
        simp only [Transport.read, hmsg, hid]

theorem Sound.line (h : s.Sound) {line : Line} (hg : s.heeds parse (.line line) = true)
    (ht : s.step? parse (.line line) = some t) : t.Sound ∧ Right parse s (.line line) t := by
  obtain ⟨halive, ht⟩ := Option.ite_none_right_eq_some.mp ht
  rw [if_pos (h.reading halive), Option.some_inj] at ht
  cases line with
  | notUtf8 => cases hg
  | text line =>
    rcases @read_text parse s line with ⟨hread, hno⟩ | ⟨msg, i, hmsg, hid, hread⟩
    · obtain rfl := hread.symm.trans ht
      have hsame : ∀ (j : ℕ) (d e : Caller), s.callers[j]? = some d → s.callers[j]? = some e →
          e = d := fun j d e hd he => Option.some.inj (he.symm.trans hd)
      refine ⟨h, ⟨fun j d e result hd hw he hr => ?_, fun j d e result hd he hlive hr => ?_,
        fun line' msg' hl hparse _ j d hid => ?_, (fun _ _ hl => by cases hl), h.kept⟩⟩
      · obtain rfl := hsame j d e hd he
        exact absurd hw (by simp [Caller.waits, hr])
      · obtain rfl := hsame j d e hd he
        exact absurd hr (returned_of_live hlive)
      · cases hl
        exact absurd hid (hno msg' j hparse)
    · obtain rfl := hread.symm.trans ht
      have hsound := h.settle i (extract msg)
      refine ⟨hsound, ⟨fun j d e result hd hw he hr => .inl ?_,
        fun j d e result hd he hlive hr => ?_, fun line' msg' hl hparse _ j d hid' hd hw => ?_,
        (fun _ _ hl => by cases hl), hsound.kept⟩⟩
      · rcases settle_callers hd he with ⟨rfl, rfl⟩ | rfl
        · refine ⟨line, msg, rfl, hmsg, Bool.eq_false_iff.mpr fun hrequest => ?_, hid,
            (Option.some.inj hr).symm⟩
          simp [heeds, hmsg, hrequest, hid, waitsUnder, hd, hw] at hg
        · exact absurd hw (by simp [Caller.waits, hr])
      · rcases settle_callers hd he with ⟨rfl, rfl⟩ | rfl <;>
          exact absurd hr (returned_of_live hlive)
      · cases hl
        cases hmsg.symm.trans hparse
        cases hid.symm.trans hid'
        exact settle_of_waits h hd hw _

theorem Sound.exit (h : s.Sound) (ht : s.step? parse .exit = some t) :
    t.Sound ∧ Right parse s .exit t := by
  obtain ⟨halive, ht⟩ := Option.ite_none_right_eq_some.mp ht
  have hsound := h.exited
  rw [if_pos (h.reading halive)] at ht hsound
  cases ht
  have hcallers : ∀ (j : ℕ) (d e : Caller), s.callers[j]? = some d →
      s.drain.callers[j]? = some e → e.stage = d.stage ∧ (e.reply = d.reply ∨
        e.reply = some (.error (.transport "the MCP server exited"))) := by
    intro j d e hd he
    rw [drain_callers, hd, Option.map_some, Option.some_inj] at he
    subst he
    split
    · exact ⟨rfl, .inr rfl⟩
    · exact ⟨rfl, .inl rfl⟩
  refine ⟨hsound, ⟨fun j d e result hd hw he hr => .inr ⟨.inl rfl, ?_⟩,
    fun j d e result hd he hlive hr => ?_, (fun _ _ hl => by cases hl),
    (fun _ _ hl => by cases hl), hsound.kept⟩⟩
  · rcases (hcallers j d e hd he).2 with hreply | hreply
    · exact absurd hw (by simp [Caller.waits, ← hreply, hr])
    · exact ⟨_, Option.some.inj (hr.symm.trans hreply)⟩
  · rw [(hcallers j d e hd he).1] at hr
    exact absurd hr (returned_of_live hlive)

theorem Sound.step {l : Label} (h : s.Sound) (hg : s.heeds parse l = true)
    (ht : s.step? parse l = some t) : t.Sound ∧ Right parse s l t := by
  cases l with
  | request method => exact h.requested method ht
  | caller i a =>
    obtain ⟨c, hi, ht⟩ := Option.bind_eq_some_iff.mp ht
    have hm := moved_of_act? ht
    exact ⟨h.moved hi hm hg, h.right_moved hi hm hg⟩
  | line line => exact h.line hg ht
  | exit => exact h.exit ht

end Transport

open Transport

/-- In every run in which the server asks nothing under an id that a caller waits under and writes
only UTF-8, no caller is dropped that has a waiter, and no request is written after the output has
closed, replies reach their requests, and only them. -/
theorem replies_matched (parse : String → Option Value)
    {tr : List (Transport × Label × Transport)} {s : Transport}
    (h : (transport parse).Exec .start tr s) (hg : ∀ x ∈ tr, x.1.heeds parse x.2.1 = true) :
    ∀ x ∈ tr, Right parse x.1 x.2.1 x.2.2 := by
  intro x hx
  obtain ⟨hsound, ht⟩ := System.Exec.guarded_mem (I := Sound)
    (fun s l t _ hs hg ht => (hs.step hg ht).1) h (.init rfl) sound_start hg hx
  exact (hsound.step (hg x hx) ht).2

/-! ## Two servers -/

def ownRequest : String := "\x7b\"jsonrpc\":\"2.0\",\"id\":1,\"method\":\"ping\"\x7d"

def firstAnswer : String := "\x7b\"jsonrpc\":\"2.0\",\"id\":1,\"result\":\"ok\"\x7d"

def readBoth (line : String) : Option Value :=
  if line = ownRequest then
    some (.obj [("jsonrpc", .str "2.0"), ("id", .num "1"), ("method", .str "ping")])
  else if line = firstAnswer then
    some (.obj [("jsonrpc", .str "2.0"), ("id", .num "1"), ("result", .str "ok")])
  else none

/-- A request is answered behind a line that is no message. -/
def answeredRun : List Label :=
  [.request "tools/list", .caller 0 (.write none), .line (.text "starting up..."),
    .line (.text firstAnswer), .caller 0 .wake]

theorem replies_matched_answered : ∃ tr s, (transport readBoth).Exec .start tr s ∧
    tr.map (·.2.1) = answeredRun ∧ ∀ x ∈ tr, Right readBoth x.1 x.2.1 x.2.2 := by
  let s := (System.steps? (System.guarded? (fun s l => s.heeds readBoth l = true)
    (Transport.step? readBoth)) .start answeredRun).get (by decide +kernel)
  obtain ⟨tr, hexec, hlabels, hg⟩ := System.exec_guarded? (t := s) Transport.start
    (Option.some_get _).symm
  exact ⟨tr, s, hexec, hlabels, replies_matched readBoth hexec hg⟩

/-- A request of the server's own is taken for the answer. -/
theorem own_request_settles : ¬ ∀ (parse : String → Option Value)
    (tr : List (Transport × Label × Transport)) (s : Transport),
    (transport parse).Exec .start tr s → ∀ x ∈ tr, Right parse x.1 x.2.1 x.2.2 := by
  intro h
  let s : Transport := ⟨[1], [⟨"tools/list", false, .written, none⟩], true, true⟩
  let t : Transport := ⟨[], [⟨"tools/list", false, .written, some (.ok .null)⟩], true, true⟩
  have hs : System.steps? (Transport.step? readBoth) .start
      [.request "tools/list", .caller 0 (.write none)] = some s := by
    decide +kernel
  have ht : s.step? readBoth (.line (.text ownRequest)) = some t := by
    decide +kernel
  obtain ⟨tr, hexec, -⟩ := System.exec_steps? Transport.start hs
  have hright := h readBoth _ t (hexec.snoc ht) (s, .line (.text ownRequest), t)
    (List.mem_append_right _ (List.mem_singleton_self _))
  rcases hright.sent 0 _ _ (.ok .null) rfl rfl rfl rfl with
    ⟨line, msg, hline, hmsg, hno, -⟩ | ⟨-, error, herror⟩
  · cases hline
    have hread : readBoth ownRequest = some
        (.obj [("jsonrpc", .str "2.0"), ("id", .num "1"), ("method", .str "ping")]) := rfl
    cases hread.symm.trans hmsg
    cases hno
  · cases herror

end Horsie.Mcp.Stdio
