import Horsie.Agent.Message
import Horsie.Lib.Joined
import Horsie.Mcp.Store
import Mathlib.Data.List.Nodup

/-!
# Tool ids

A server's tools are offered under `mcp__<server>__<tool>`. Composing writes the id, running a tool
strips it of its server's start, and a call that nobody offers is looked up by the piece between the
first separators. The three agree exactly on servers whose names keep apart: `Told` says what
agreeing means, `Apart` which names do (`told_iff`).
-/

namespace Horsie.Mcp

open Horsie.Agent (Value)
open Horsie.Lib (Plain Overlap firstPiece stripPrefix)

/-! ## Toolboxes -/

structure ToolSpec where
  name : String
  description : String
  inputSchema : Value

structure McpToolDef where
  name : String
  description : String
  inputSchema : Value

/-- What became of a call: a server was asked to run a tool, or it was refused. -/
inductive Outcome
  | called (server tool : String) (input : Value)
  | refused (text : String)

structure Toolbox where
  specs : List ToolSpec
  execute : String → Value → Outcome

/-- A server's tools; those in scope are the ones `allowed` names, or all. -/
structure McpToolbox where
  server : String
  tools : List McpToolDef
  allowed : Option (List String)

namespace McpToolbox

variable (b : McpToolbox)

def isAllowed (tool : String) : Bool := b.allowed.all fun names => names.contains tool

def idPrefix : String := "mcp__" ++ b.server ++ "__"

def spec (t : McpToolDef) : ToolSpec := ⟨b.idPrefix ++ t.name, t.description, t.inputSchema⟩

def specs : List ToolSpec := (b.tools.filter fun t => b.isAllowed t.name).map b.spec

def execute (name : String) (input : Value) : Outcome :=
  match stripPrefix b.idPrefix name with
  | none => .refused ("'" ++ name ++ "' is not a tool of MCP server '" ++ b.server ++ "'")
  | some tool =>
    if b.isAllowed tool then .called b.server tool input
    else
      .refused ("'" ++ tool ++ "' is not among the tools selected from MCP server '" ++ b.server ++
        "' for this session, so it cannot be called. Do not try it again.")

def toolbox : Toolbox := ⟨b.specs, b.execute⟩

def Offers (tool : String) : Prop := ∃ t ∈ b.tools, t.name = tool ∧ b.isAllowed tool = true

end McpToolbox

/-- A server whose tools are absent, and why. -/
inductive McpUnavailable
  | gone (server : String)
  | unreachable (server reason : String)
  | needsAuth (server : String)
deriving DecidableEq

namespace McpUnavailable

def server : McpUnavailable → String
  | .gone server | .unreachable server _ | .needsAuth server => server

/-- What is told besides the server's name. -/
def explanation : McpUnavailable → String
  | .gone _ =>
    " is no longer configured, so its tools are gone.                  " ++
      "Do not call them again; say so and carry on without them."
  | .unreachable _ reason =>
    " could not be reached this turn (" ++ reason ++ "), so its                  " ++
      "tools are unavailable. It may recover on a later turn."
  | .needsAuth _ =>
    " has not been authorised, so its tools are                  " ++
      "unavailable until someone connects it in Settings."

def explain (u : McpUnavailable) : String :=
  "the MCP server '" ++ u.server ++ "'" ++ u.explanation

end McpUnavailable

def mcpServerOf (tool : String) : Option String :=
  (stripPrefix "mcp__" tool).map fun rest =>
    String.ofList (firstPiece ['_', '_'] rest.toList)

/-- The specs without those whose name was there before. -/
def firstSpellings : List String → List ToolSpec → List ToolSpec
  | _, [] => []
  | seen, s :: rest =>
    if s.name ∈ seen then firstSpellings seen rest else s :: firstSpellings (s.name :: seen) rest

structure CompositeToolbox where
  boxes : List Toolbox
  unavailable : List McpUnavailable

namespace CompositeToolbox

variable (c : CompositeToolbox)

def specs : List ToolSpec := firstSpellings [] (c.boxes.flatMap Toolbox.specs)

/-- The first box that offers the tool runs it. A call nobody can run is refused with what is known
of its server. -/
def execute (name : String) (input : Value) : Outcome :=
  match c.boxes.find? fun b => b.specs.any fun s => s.name = name with
  | some b => b.execute name input
  | none =>
    match (mcpServerOf name).bind fun server => c.unavailable.find? fun u => u.server = server with
    | some missing => .refused missing.explain
    | none => .refused ("no tool named '" ++ name ++ "'")

end CompositeToolbox

/-- The servers of a turn: those that connected and those that did not, under names that are
accepted and all different. -/
structure Servers where
  live : List McpToolbox
  unavailable : List McpUnavailable
  valid : ∀ name ∈ live.map McpToolbox.server ++ unavailable.map McpUnavailable.server,
    validateServerName name = .ok ()
  distinct : (live.map McpToolbox.server ++ unavailable.map McpUnavailable.server).Nodup

namespace Servers

variable (x : Servers)

def composite : CompositeToolbox := ⟨x.live.map McpToolbox.toolbox, x.unavailable⟩

end Servers

def toolId (server tool : String) : String := "mcp__" ++ server ++ "__" ++ tool

/-! ## What is promised -/

/-- What is promised of tool ids: each belongs to one tool of one server, every tool in scope is
offered, what is offered runs the tool that was shown, and a call for an absent server's tool is
refused with that server's reason. -/
structure Told (x : Servers) : Prop where
  unique : ∀ b ∈ x.live, ∀ b' ∈ x.live, ∀ t t', b.Offers t → b'.Offers t' →
    toolId b.server t = toolId b'.server t' → b.server = b'.server ∧ t = t'
  offered : ∀ b ∈ x.live, ∀ t, b.Offers t → ∃ d ∈ b.tools, d.name = t ∧
    b.spec d ∈ x.composite.specs
  shown : ∀ s ∈ x.composite.specs, ∀ input, ∃ b ∈ x.live, ∃ d ∈ b.tools,
    b.Offers d.name ∧ s = b.spec d ∧
      x.composite.execute s.name input = .called b.server d.name input
  refused : ∀ u ∈ x.unavailable, ∀ tool input,
    x.composite.execute (toolId u.server tool) input = .refused u.explain

/-- The names of two servers with tools in scope never move letters of a separator over, and the
name of an absent server has no separator, does not end in its letter, and begins no name of a
server with tools in scope together with the separator. -/
structure Apart (x : Servers) : Prop where
  live : ∀ b ∈ x.live, ∀ b' ∈ x.live, ∀ t t', b.Offers t → b'.Offers t' →
    ¬ Overlap '_' b.server.toList t.toList b'.server.toList t'.toList
  absent : ∀ u ∈ x.unavailable, Plain '_' u.server.toList ∧
    ∀ b ∈ x.live, ∀ t, b.Offers t → b.server ≠ u.server ++ "_" ∧
      ¬ (u.server ++ "__").toList <+: b.server.toList

/-! ## Ids -/

variable {server server' tool tool' name : String} {input : Value} {x : Servers}
  {b b' : McpToolbox} {u u' : McpUnavailable}

theorem toList_toolId (server tool : String) : (toolId server tool).toList =
    "mcp__".toList ++ (server.toList ++ '_' :: '_' :: tool.toList) := by
  unfold toolId
  rw [String.toList_append, String.toList_append, String.toList_append, List.append_assoc,
    List.append_assoc]
  rfl

theorem toolId_eq_iff : toolId server tool = toolId server' tool' ↔
    server = server' ∧ tool = tool' ∨
      Overlap '_' server.toList tool.toList server'.toList tool'.toList ∨
        Overlap '_' server'.toList tool'.toList server.toList tool.toList := by
  rw [← String.toList_inj, toList_toolId, toList_toolId, List.append_right_inj, Lib.joined_eq_iff,
    String.toList_inj, String.toList_inj]

theorem stripPrefix_append (start s : String) : stripPrefix start (start ++ s) = some s := by
  unfold stripPrefix
  rw [String.toList_append, if_pos (List.isPrefixOf_iff_prefix.mpr (List.prefix_append _ _)),
    ← String.length_toList, List.drop_left, String.ofList_toList]

theorem mcpServerOf_toolId (server tool : String) : mcpServerOf (toolId server tool) =
    some (String.ofList (firstPiece ['_', '_'] (server.toList ++ '_' :: '_' :: tool.toList))) := by
  unfold mcpServerOf toolId
  rw [String.append_assoc, String.append_assoc, stripPrefix_append, Option.map_some,
    String.toList_append, String.toList_append]
  rfl

theorem mcpServerOf_eq_iff :
    mcpServerOf (toolId server tool) = some server ↔ Plain '_' server.toList := by
  rw [mcpServerOf_toolId, Option.some_inj, ← String.toList_inj, String.toList_ofList]
  exact Lib.firstPiece_joined_iff

/-! ## What a server offers -/

variable {s : ToolSpec}

theorem McpToolbox.mem_specs :
    s ∈ b.specs ↔ ∃ d ∈ b.tools, b.isAllowed d.name = true ∧ b.spec d = s := by
  unfold McpToolbox.specs
  rw [List.mem_map]
  constructor
  · rintro ⟨d, hd, hspec⟩
    obtain ⟨hmem, hallowed⟩ := List.mem_filter.mp hd
    exact ⟨d, hmem, hallowed, hspec⟩
  · rintro ⟨d, hmem, hallowed, hspec⟩
    exact ⟨d, List.mem_filter.mpr ⟨hmem, hallowed⟩, hspec⟩

theorem McpToolbox.execute_toolId (h : b.isAllowed tool = true) :
    b.execute (toolId b.server tool) input = .called b.server tool input := by
  unfold McpToolbox.execute
  have hstrip : stripPrefix b.idPrefix (toolId b.server tool) = some tool :=
    stripPrefix_append _ _
  rw [hstrip]
  exact if_pos h

theorem mem_firstSpellings {seen : List String} {specs : List ToolSpec} :
    s ∈ firstSpellings seen specs ↔
      s.name ∉ seen ∧ specs.find? (fun r => r.name = s.name) = some s := by
  induction specs generalizing seen with
  | nil =>
    refine iff_of_false List.not_mem_nil ?_
    rintro ⟨-, h⟩
    cases h
  | cons r specs ih =>
    rw [firstSpellings]
    by_cases hname : r.name = s.name
    · rw [List.find?_cons_of_pos (p := fun r : ToolSpec => decide (r.name = s.name))
        (decide_eq_true hname), Option.some_inj, hname]
      split_ifs with hseen
      · rw [ih]
        exact iff_of_false (fun h => h.1 hseen) fun h => h.1 hseen
      · rw [List.mem_cons, ih, and_iff_right hseen]
        constructor
        · rintro (h | ⟨h, -⟩)
          · exact h.symm
          · exact absurd List.mem_cons_self h
        · intro h
          exact .inl h.symm
    · rw [List.find?_cons_of_neg (p := fun r : ToolSpec => decide (r.name = s.name))
        (by rwa [decide_eq_true_iff])]
      split_ifs with hseen
      · exact ih
      · have hne : s ≠ r := by
          rintro rfl
          exact hname rfl
        rw [List.mem_cons, or_iff_right hne, ih, List.mem_cons, not_or,
          and_iff_right (Ne.symm hname)]

theorem find?_box {boxes : List Toolbox} {p : ToolSpec → Bool}
    (h : (boxes.flatMap Toolbox.specs).find? p = some s) :
    ∃ box ∈ boxes, s ∈ box.specs ∧ boxes.find? (fun box => box.specs.any p) = some box := by
  induction boxes with
  | nil => cases h
  | cons box boxes ih =>
    rw [List.flatMap_cons, List.find?_append] at h
    cases hbox : box.specs.find? p with
    | some r =>
      rw [hbox, Option.some_or] at h
      cases h
      have hmem := List.mem_of_find?_eq_some hbox
      have hany : box.specs.any p = true :=
        List.any_eq_true.mpr ⟨_, hmem, List.find?_some hbox⟩
      exact ⟨box, List.mem_cons_self, hmem, List.find?_cons_of_pos hany⟩
    | none =>
      rw [hbox, Option.none_or] at h
      obtain ⟨box', hmem, hspec, hfind⟩ := ih h
      have hany : ¬ box.specs.any p = true := by
        rw [List.any_eq_true]
        rintro ⟨r, hr, hp⟩
        exact List.find?_eq_none.mp hbox r hr hp
      exact ⟨box', List.mem_cons_of_mem _ hmem, hspec,
        (List.find?_cons_of_neg (p := fun box : Toolbox => box.specs.any p) hany).trans hfind⟩

namespace Servers

/-- A name somebody offers. -/
def Advertised (x : Servers) (name : String) : Prop :=
  ∃ b ∈ x.live, ∃ t, b.Offers t ∧ toolId b.server t = name

theorem mem_specs_iff {s : ToolSpec} : s ∈ x.composite.boxes.flatMap Toolbox.specs ↔
    ∃ b ∈ x.live, s ∈ b.specs := by
  show s ∈ (x.live.map McpToolbox.toolbox).flatMap Toolbox.specs ↔ _
  rw [List.flatMap_map, List.mem_flatMap]
  rfl

theorem shown_of_find? {s : ToolSpec}
    (h : (x.composite.boxes.flatMap Toolbox.specs).find? (fun r => r.name = name) = some s) :
    s.name = name ∧ s ∈ x.composite.specs ∧ ∀ input, ∃ b ∈ x.live, ∃ d ∈ b.tools,
      b.Offers d.name ∧ s = b.spec d ∧
        x.composite.execute name input = .called b.server d.name input := by
  have hname : s.name = name := of_decide_eq_true (List.find?_some (p := fun r : ToolSpec =>
    decide (r.name = name)) h)
  refine ⟨hname, mem_firstSpellings.mpr ⟨List.not_mem_nil, by rw [hname]; exact h⟩, ?_⟩
  intro input
  obtain ⟨box, hbox, hspec, hfind⟩ := find?_box h
  obtain ⟨b, hb, rfl⟩ := List.mem_map.mp hbox
  obtain ⟨d, hd, hallowed, rfl⟩ := McpToolbox.mem_specs.mp hspec
  refine ⟨b, hb, d, hd, ⟨d, hd, rfl, hallowed⟩, rfl, ?_⟩
  unfold CompositeToolbox.execute
  rw [hfind, ← hname]
  exact McpToolbox.execute_toolId hallowed

theorem execute_advertised (h : x.Advertised name) (input : Value) : ∃ s ∈ x.composite.specs,
    ∃ b ∈ x.live, ∃ d ∈ b.tools, b.Offers d.name ∧ s = b.spec d ∧ s.name = name ∧
      x.composite.execute name input = .called b.server d.name input := by
  obtain ⟨b, hb, t, ⟨d, hd, rfl, hallowed⟩, rfl⟩ := h
  cases hfind : (x.composite.boxes.flatMap Toolbox.specs).find?
      (fun r => r.name = toolId b.server d.name) with
  | none =>
    have hspec : b.spec d ∈ x.composite.boxes.flatMap Toolbox.specs :=
      mem_specs_iff.mpr ⟨b, hb, McpToolbox.mem_specs.mpr ⟨d, hd, hallowed, rfl⟩⟩
    exact absurd (decide_eq_true rfl) (List.find?_eq_none.mp hfind _ hspec)
  | some s =>
    obtain ⟨hname, hs, hshown⟩ := shown_of_find? hfind
    obtain ⟨b', hb', d', hd', hoffers, hspec, hcalled⟩ := hshown input
    exact ⟨s, hs, b', hb', d', hd', hoffers, hspec, hname, hcalled⟩

theorem execute_unadvertised (h : ¬ x.Advertised name) (input : Value) :
    x.composite.execute name input =
      match (mcpServerOf name).bind fun server =>
        x.unavailable.find? fun u => u.server = server with
      | some missing => .refused missing.explain
      | none => .refused ("no tool named '" ++ name ++ "'") := by
  have hfind : x.composite.boxes.find? (fun b => b.specs.any fun s => s.name = name) = none := by
    rw [List.find?_eq_none]
    intro box hbox hany
    obtain ⟨b, hb, rfl⟩ := List.mem_map.mp hbox
    obtain ⟨s, hs, hname⟩ := List.any_eq_true.mp hany
    obtain ⟨d, hd, hallowed, rfl⟩ := McpToolbox.mem_specs.mp hs
    exact h ⟨b, hb, d.name, ⟨d, hd, rfl, hallowed⟩, of_decide_eq_true hname⟩
  unfold CompositeToolbox.execute
  rw [hfind]
  rfl

end Servers

/-! ## Names -/

/-- What ends a server's name in a refusal. -/
def quote : Char := Char.ofNat 39

theorem quote_not_mem (h : validateServerName name = .ok ()) : quote ∉ name.toList := by
  unfold validateServerName at h
  split_ifs at h with _ hletters
  intro hmem
  have hquote := List.all_eq_true.mp hletters quote hmem
  cases hquote

theorem toList_explain (u : McpUnavailable) : u.explain.toList =
    "the MCP server '".toList ++ (u.server.toList ++ quote :: u.explanation.toList) := by
  unfold McpUnavailable.explain
  rw [String.toList_append, String.toList_append, String.toList_append, List.append_assoc,
    List.append_assoc]
  rfl

theorem server_of_explain (h : validateServerName u.server = .ok ())
    (h' : validateServerName u'.server = .ok ()) (heq : u.explain = u'.explain) :
    u.server = u'.server := by
  have hlist := congrArg String.toList heq
  rw [toList_explain, toList_explain, List.append_right_inj] at hlist
  exact String.toList_inj.mp (Lib.eq_of_append_cons (quote_not_mem h) (quote_not_mem h') hlist)

theorem explain_ne_unknown (u : McpUnavailable) (name : String) :
    u.explain ≠ "no tool named '" ++ name ++ "'" := by
  intro h
  have hlist := congrArg (fun s : String => s.toList.head?) h
  rw [toList_explain, String.toList_append, String.toList_append] at hlist
  exact absurd (Option.some.inj hlist) (by decide)

namespace Servers

theorem valid_unavailable (h : u ∈ x.unavailable) : validateServerName u.server = .ok () :=
  x.valid _ (List.mem_append_right _ (List.mem_map_of_mem h))

theorem eq_of_server (hb : b ∈ x.live) (hb' : b' ∈ x.live) (h : b.server = b'.server) : b = b' :=
  List.inj_on_of_nodup_map (List.nodup_append.mp x.distinct).1 hb hb' h

theorem eq_of_server_unavailable (hu : u ∈ x.unavailable) (hu' : u' ∈ x.unavailable)
    (h : u.server = u'.server) : u = u' :=
  List.inj_on_of_nodup_map (List.nodup_append.mp x.distinct).2.1 hu hu' h

theorem live_ne_unavailable (hb : b ∈ x.live) (hu : u ∈ x.unavailable) : b.server ≠ u.server :=
  (List.nodup_append.mp x.distinct).2.2 _ (List.mem_map_of_mem hb) _ (List.mem_map_of_mem hu)

/-! ## The ids of live servers -/

theorem toolId_unique (happart : Apart x) (hb : b ∈ x.live) (hb' : b' ∈ x.live)
    (ht : b.Offers tool) (ht' : b'.Offers tool')
    (h : toolId b.server tool = toolId b'.server tool') : b.server = b'.server ∧ tool = tool' := by
  rcases toolId_eq_iff.mp h with h | h | h
  · exact h
  · exact absurd h (happart.live b hb b' hb' tool tool' ht ht')
  · exact absurd h (happart.live b' hb' b hb tool' tool ht' ht)

theorem shown (x : Servers) {s : ToolSpec} (hs : s ∈ x.composite.specs) (input : Value) :
    ∃ b ∈ x.live, ∃ d ∈ b.tools, b.Offers d.name ∧ s = b.spec d ∧
      x.composite.execute s.name input = .called b.server d.name input :=
  (shown_of_find? (mem_firstSpellings.mp hs).2).2.2 input

theorem offered (happart : Apart x) (hb : b ∈ x.live) (ht : b.Offers tool) :
    ∃ d ∈ b.tools, d.name = tool ∧ b.spec d ∈ x.composite.specs := by
  obtain ⟨s, hs, b', hb', d, hd, hoffers, rfl, hname, -⟩ :=
    execute_advertised ⟨b, hb, tool, ht, rfl⟩ .null
  obtain ⟨hserver, rfl⟩ := toolId_unique happart hb' hb hoffers ht hname
  obtain rfl := eq_of_server hb' hb hserver
  exact ⟨d, hd, rfl, hs⟩

/-! ## The ids of absent servers -/

theorem not_advertised (happart : Apart x) (hu : u ∈ x.unavailable) (tool : String) :
    ¬ x.Advertised (toolId u.server tool) := by
  rintro ⟨b, hb, t, ht, hid⟩
  obtain ⟨hplain, hlonger⟩ := happart.absent u hu
  obtain ⟨hnext, hstart⟩ := hlonger b hb t ht
  rcases toolId_eq_iff.mp hid with h | h | h
  · exact live_ne_unavailable hb hu h.1
  · exact hplain.not_overlap h
  · rcases h with ⟨hserver, -⟩ | ⟨y, hserver, -⟩
    · refine hnext (String.toList_inj.mp ?_)
      rw [hserver, String.toList_append]
      rfl
    · refine hstart ⟨y, ?_⟩
      rw [hserver, String.toList_append, List.append_assoc]
      rfl

theorem refused (happart : Apart x) (hu : u ∈ x.unavailable) (tool : String) (input : Value) :
    x.composite.execute (toolId u.server tool) input = .refused u.explain := by
  rw [execute_unadvertised (not_advertised happart hu tool),
    mcpServerOf_eq_iff.mpr (happart.absent u hu).1, Option.bind_some]
  cases hfind : x.unavailable.find? fun v => v.server = u.server with
  | none => exact absurd (decide_eq_true rfl) (List.find?_eq_none.mp hfind u hu)
  | some v =>
    have hserver : v.server = u.server := of_decide_eq_true
      (List.find?_some (p := fun v : McpUnavailable => decide (v.server = u.server)) hfind)
    obtain rfl := eq_of_server_unavailable (List.mem_of_find?_eq_some hfind) hu hserver
    rfl

/-- A refusal with an absent server's reason has found its name in the id. -/
theorem plain_of_refused (hu : u ∈ x.unavailable)
    (h : x.composite.execute (toolId u.server tool) input = .refused u.explain) :
    Plain '_' u.server.toList := by
  by_cases hadvertised : x.Advertised (toolId u.server tool)
  · obtain ⟨s, -, b, -, d, -, -, -, -, hcalled⟩ := execute_advertised hadvertised input
    rw [hcalled] at h
    cases h
  · rw [execute_unadvertised hadvertised] at h
    cases hfind : (mcpServerOf (toolId u.server tool)).bind fun server =>
        x.unavailable.find? fun v => v.server = server with
    | none =>
      rw [hfind] at h
      injection h with h
      exact absurd h.symm (explain_ne_unknown u _)
    | some v =>
      rw [hfind] at h
      injection h with h
      obtain ⟨server, hserver, hfound⟩ := Option.bind_eq_some_iff.mp hfind
      have hv : v.server = server := of_decide_eq_true
        (List.find?_some (p := fun v : McpUnavailable => decide (v.server = server)) hfound)
      have hsame : v.server = u.server := server_of_explain
        (valid_unavailable (List.mem_of_find?_eq_some hfound)) (valid_unavailable hu) h
      rw [← hv, hsame] at hserver
      exact mcpServerOf_eq_iff.mp hserver

end Servers

/-! ## Tool ids -/

theorem Apart.told (h : Apart x) : Told x where
  unique _ hb _ hb' _ _ ht ht' hid := Servers.toolId_unique h hb hb' ht ht' hid
  offered _ hb _ ht := Servers.offered h hb ht
  shown _ hs input := x.shown hs input
  refused _ hu tool input := Servers.refused h hu tool input

theorem Told.apart (h : Told x) : Apart x := by
  constructor
  · intro b hb b' hb' t t' ht ht' hoverlap
    have hid := toolId_eq_iff.mpr (.inr (.inl hoverlap))
    have hserver := (h.unique b hb b' hb' t t' ht ht' hid).1
    exact hoverlap.ne (congrArg String.toList hserver)
  · intro u hu
    refine ⟨Servers.plain_of_refused hu (h.refused u hu "" .null), ?_⟩
    intro b hb t ht
    -- a longer name takes a call that the absent server's id would be refused with
    have hfree : ∀ tool, toolId b.server t ≠ toolId u.server tool := by
      intro tool hid
      obtain ⟨s, -, b', -, d, -, -, -, -, hcalled⟩ :=
        Servers.execute_advertised ⟨b, hb, t, ht, hid⟩ .null
      rw [h.refused u hu tool .null] at hcalled
      cases hcalled
    constructor
    · intro hserver
      refine hfree ("_" ++ t) (toolId_eq_iff.mpr (.inr (.inr (.inl ⟨?_, ?_⟩))))
      · rw [hserver, String.toList_append]
        rfl
      · rw [String.toList_append]
        rfl
    · rintro ⟨y, hserver⟩
      refine hfree (String.ofList y ++ "__" ++ t)
        (toolId_eq_iff.mpr (.inr (.inr (.inr ⟨y, ?_, ?_⟩))))
      · rw [← hserver, String.toList_append, List.append_assoc]
        rfl
      · rw [String.toList_append, String.toList_append, String.toList_ofList, List.append_assoc]
        rfl

/-- Tool ids keep their promises exactly of servers whose names keep apart. -/
theorem told_iff (x : Servers) : Told x ↔ Apart x :=
  ⟨Told.apart, Apart.told⟩

/-- A server `a` with a tool `_b` and a server `a_` with a tool `b`. -/
def neighbours : Servers where
  live := [⟨"a", [⟨"_b", "", .null⟩], none⟩, ⟨"a_", [⟨"b", "", .null⟩], none⟩]
  unavailable := []
  valid := by decide +kernel
  distinct := by decide

/-- Two servers offer tools under one id. -/
theorem neighbours_share_an_id : ¬ ∀ x : Servers, Told x := by
  intro h
  have hfirst : (⟨"a", [⟨"_b", "", .null⟩], none⟩ : McpToolbox).Offers "_b" :=
    ⟨_, List.mem_cons_self, rfl, rfl⟩
  have hsecond : (⟨"a_", [⟨"b", "", .null⟩], none⟩ : McpToolbox).Offers "b" :=
    ⟨_, List.mem_cons_self, rfl, rfl⟩
  have hsame := (h neighbours).unique _ List.mem_cons_self _
    (List.mem_cons_of_mem _ List.mem_cons_self) "_b" "b" hfirst hsecond (by decide +kernel)
  exact absurd hsame.2 (by decide)

end Horsie.Mcp
