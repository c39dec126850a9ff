import Horsie.Lib.Machine
import Mathlib.Algebra.GroupWithZero.Nat
import Mathlib.Data.List.Sort

/-!
# Spilled outputs

What a tool printed beyond the budget of its result is kept in a file, a directory for each agent.
Before a file is written its directory is pruned: of what is too old, and of the oldest until the
new one has its place. `preserve_prunes_oldest` says which files go, `spills_within_quota` that no
directory ever holds more than its quota.
-/

namespace Horsie.Tools

/-- A file of a spill directory. -/
structure SpillFile where
  name : String
  modified : ℕ
  body : List UInt8
  deriving DecidableEq

def SpillFile.len (f : SpillFile) : ℕ := f.body.length

/-- The bounds of one agent's directory. -/
structure SpillPolicy where
  maxFiles : ℕ
  maxBytes : ℕ
  maxAge : ℕ

def maxFilesPerAgent : ℕ := 20

def maxBytesPerAgent : ℕ := 50 * 1024 * 1024

/-- A day, in milliseconds. -/
def spillMaxAge : ℕ := 24 * 60 * 60 * 1000

def SpillPolicy.ofRuntime : SpillPolicy := ⟨maxFilesPerAgent, maxBytesPerAgent, spillMaxAge⟩

/-- What comes of writing a file: all of it, a beginning of it, or nothing at all. -/
inductive Written
  | whole
  | part (k : ℕ)
  | nothing

/-- How the file system answers during one call. -/
structure Disk where
  createDir : Bool
  readDir : Bool
  /-- Whether a file of the directory can be removed. -/
  remove : String → Bool
  written : Written
  /-- The time the written file gets. -/
  mtime : ℕ

/-- The agents' directories by their names. -/
abbrev SpillDirs := String → Option (List SpillFile)

def safeName (raw : String) : String :=
  let value := String.ofList ((raw.toList.take 80).map fun ch =>
    if ch.isAlphanum ∨ ch = '-' ∨ ch = '_' then ch else '_')
  if value = "" then "output" else value

def totalBytes (files : List SpillFile) : ℕ := (files.map (·.len)).sum

namespace SpillPolicy

variable (p : SpillPolicy)

/-- Whether a new file has its place among so many others. -/
def HasPlace (incoming files bytes : ℕ) : Prop := files < p.maxFiles ∧ bytes + incoming ≤ p.maxBytes

instance (incoming files bytes : ℕ) : Decidable (p.HasPlace incoming files bytes) :=
  inferInstanceAs (Decidable (_ ∧ _))

/-- Remove from the front of a list, the oldest first, until the new file has its place. A file
that cannot be removed stays and is counted. -/
def evict (disk : Disk) (incoming : ℕ) : List SpillFile → ℕ → ℕ → List SpillFile
  | [], _, _ => []
  | f :: rest, files, bytes =>
    if p.HasPlace incoming files bytes then f :: rest
    else if disk.remove f.name then evict disk incoming rest (files - 1) (bytes - f.len)
    else f :: evict disk incoming rest files bytes

/-- A file that is past its age. A file from the future has no age. -/
def Expired (now : ℕ) (f : SpillFile) : Prop := p.maxAge < now - f.modified

instance (now : ℕ) : DecidablePred (p.Expired now) := fun _ => inferInstanceAs (Decidable (_ < _))

/-- What may stay of a directory: neither the file that is to be written nor one past its age, the
oldest first. -/
def retained (now : ℕ) (destination : String) (files : List SpillFile) : List SpillFile :=
  (files.filter fun f => f.name ≠ destination ∧ ¬ p.Expired now f).mergeSort
    fun f g => f.modified ≤ g.modified

/-- Make place in a directory. It is read in no particular order. -/
def prune (disk : Disk) (now : ℕ) (destination : String) (incoming : ℕ)
    (files : List SpillFile) : List SpillFile :=
  if disk.readDir then
    let left := p.retained now destination files
    (files.filter fun f =>
        (f.name = destination ∨ p.Expired now f) ∧ disk.remove f.name = false) ++
      p.evict disk incoming left left.length (totalBytes left)
  else files

/-- Keep a body: the directory and the name it has been kept under, and its size. -/
def preserve (disk : Disk) (now : ℕ) (agent callId : String) (body : List UInt8)
    (dirs : SpillDirs) : Option ((String × String) × ℕ) × SpillDirs :=
  if p.maxBytes < body.length then (none, dirs)
  else if disk.createDir then
    let directory := safeName agent
    let destination := safeName callId ++ ".txt"
    let files := p.prune disk now destination body.length ((dirs directory).getD [])
    let others := files.filter (·.name ≠ destination)
    match disk.written with
    | .whole => (some ((directory, destination), body.length),
        Function.update dirs directory (some (others ++ [⟨destination, disk.mtime, body⟩])))
    | .part k => (none,
        Function.update dirs directory (some (others ++ [⟨destination, disk.mtime, body.take k⟩])))
    | .nothing => (none, Function.update dirs directory (some files))
  else (none, dirs)

end SpillPolicy

/-! ## What is removed -/

/-- A file system whose directories can be read and whose files can be removed. -/
structure Disk.Prunes (disk : Disk) : Prop where
  readDir : disk.readDir = true
  remove : ∀ name, disk.remove name = true

section Evict

variable {p : SpillPolicy} {disk : Disk} {incoming : ℕ} {l : List SpillFile}

@[simp] theorem totalBytes_nil : totalBytes [] = 0 := rfl

@[simp] theorem totalBytes_cons (f : SpillFile) : totalBytes (f :: l) = f.len + totalBytes l := rfl

@[simp] theorem totalBytes_append (l' : List SpillFile) :
    totalBytes (l ++ l') = totalBytes l + totalBytes l' := by
  simp [totalBytes]

/-- The place there is among the files of a list. -/
abbrev Fits (p : SpillPolicy) (incoming : ℕ) (l : List SpillFile) : Prop :=
  p.HasPlace incoming l.length (totalBytes l)

variable (p) (incoming)

/-- The oldest files go, and no more of them than needed. -/
theorem evict_eq_drop (hremove : ∀ name, disk.remove name = true) (l : List SpillFile) :
    ∃ k, p.evict disk incoming l l.length (totalBytes l) = l.drop k ∧
      (Fits p incoming (l.drop k) ∨ l.length ≤ k) ∧ ∀ j < k, ¬ Fits p incoming (l.drop j) := by
  induction l with
  | nil => exact ⟨0, rfl, .inr (Nat.zero_le _), fun j hj => absurd hj (Nat.not_lt_zero j)⟩
  | cons f l ih =>
    by_cases hfits : Fits p incoming (f :: l)
    · refine ⟨0, ?_, .inl hfits, fun j hj => absurd hj (Nat.not_lt_zero j)⟩
      rw [SpillPolicy.evict, if_pos hfits, List.drop_zero]
    · obtain ⟨k, hk, hplace, hmin⟩ := ih
      refine ⟨k + 1, ?_, hplace.imp id Nat.succ_le_succ, fun j hj => ?_⟩
      · rw [SpillPolicy.evict, if_neg hfits, if_pos (hremove f.name), List.length_cons,
          Nat.add_sub_cancel, totalBytes_cons, Nat.add_sub_cancel_left]
        exact hk
      · cases j with
        | zero => exact hfits
        | succ j => exact hmin j (Nat.lt_of_succ_lt_succ hj)

/-- A pruned directory: what may stay, less the oldest of it, as few as it takes. -/
theorem prune_eq_drop (hdisk : disk.Prunes) (now : ℕ) (destination : String)
    (files : List SpillFile) :
    ∃ k, p.prune disk now destination incoming files =
        (p.retained now destination files).drop k ∧
      (Fits p incoming ((p.retained now destination files).drop k) ∨
        (p.retained now destination files).length ≤ k) ∧
      ∀ j < k, ¬ Fits p incoming ((p.retained now destination files).drop j) := by
  obtain ⟨k, hk, hplace, hmin⟩ := evict_eq_drop p incoming hdisk.remove
    (p.retained now destination files)
  refine ⟨k, ?_, hplace, hmin⟩
  have hnone : files.filter (fun f =>
      (f.name = destination ∨ p.Expired now f) ∧ disk.remove f.name = false) = [] :=
    List.filter_eq_nil_iff.mpr fun f _ => by simp [hdisk.remove]
  show (if disk.readDir = true then _ else _) = _
  rw [if_pos hdisk.readDir, ← hk, hnone, List.nil_append]

theorem name_of_mem_prune (hdisk : disk.Prunes) {now : ℕ} {destination : String}
    {files : List SpillFile} {f : SpillFile}
    (h : f ∈ p.prune disk now destination incoming files) : f.name ≠ destination := by
  obtain ⟨k, hk, -, -⟩ := prune_eq_drop p incoming hdisk now destination files
  rw [hk] at h
  have hmem := List.mem_mergeSort.mp (List.mem_of_mem_drop h)
  have hkeep := of_decide_eq_true (List.mem_filter.mp hmem).2
  exact hkeep.1

/-- The file that is written is not among those that are left. -/
theorem filter_prune (hdisk : disk.Prunes) (now : ℕ) (destination : String)
    (files : List SpillFile) :
    (p.prune disk now destination incoming files).filter (fun f => f.name ≠ destination) =
      p.prune disk now destination incoming files :=
  List.filter_eq_self.mpr fun _ hf => decide_eq_true (name_of_mem_prune p incoming hdisk hf)

end Evict

/-! ## Quotas -/

namespace SpillPolicy

variable (p : SpillPolicy)

/-- A directory that does not exceed the policy's bounds. -/
def WithinQuota (files : List SpillFile) : Prop :=
  files.length ≤ p.maxFiles ∧ totalBytes files ≤ p.maxBytes

variable {p} {disk : Disk} {now : ℕ} {agent callId : String} {body : List UInt8}
  {dirs : SpillDirs}

theorem HasPlace.withinQuota {l : List SpillFile} {f : SpillFile}
    (h : Fits p body.length l) (hlen : f.len ≤ body.length) : p.WithinQuota (l ++ [f]) := by
  obtain ⟨hfiles, hbytes⟩ := h
  refine ⟨?_, ?_⟩
  · rw [List.length_append]
    exact hfiles
  · rw [totalBytes_append, totalBytes_cons, totalBytes_nil]
    omega

/-- After pruning, a file that is no longer than announced has its place. -/
theorem withinQuota_prune_append (hdisk : disk.Prunes) (hpos : 0 < p.maxFiles)
    (hbody : body.length ≤ p.maxBytes) (destination : String) (files : List SpillFile)
    {f : SpillFile} (hlen : f.len ≤ body.length) :
    p.WithinQuota (p.prune disk now destination body.length files ++ [f]) := by
  obtain ⟨k, hk, hplace, -⟩ := prune_eq_drop p body.length hdisk now
    destination files
  rw [hk]
  obtain hfits | hall := hplace
  · exact HasPlace.withinQuota hfits hlen
  · rw [List.drop_eq_nil_of_le hall]
    have hempty : Fits p body.length [] := ⟨hpos, by
      rw [totalBytes_nil, Nat.zero_add]
      exact hbody⟩
    exact HasPlace.withinQuota hempty hlen

theorem WithinQuota.of_append {l l' : List SpillFile} (h : p.WithinQuota (l ++ l')) :
    p.WithinQuota l := by
  obtain ⟨hfiles, hbytes⟩ := h
  rw [List.length_append] at hfiles
  rw [totalBytes_append] at hbytes
  exact ⟨by omega, by omega⟩

/-- A call that comes to writing its file. -/
theorem preserve_of_le (p : SpillPolicy) (hdisk : disk.Prunes) (hdir : disk.createDir = true)
    (hbody : body.length ≤ p.maxBytes) (now : ℕ) (agent callId : String) (dirs : SpillDirs) :
    p.preserve disk now agent callId body dirs =
      let destination := safeName callId ++ ".txt"
      let files := p.prune disk now destination body.length ((dirs (safeName agent)).getD [])
      match disk.written with
      | .whole => (some ((safeName agent, destination), body.length),
          Function.update dirs (safeName agent)
            (some (files ++ [⟨destination, disk.mtime, body⟩])))
      | .part k => (none, Function.update dirs (safeName agent)
          (some (files ++ [⟨destination, disk.mtime, body.take k⟩])))
      | .nothing => (none, Function.update dirs (safeName agent) (some files)) := by
  unfold preserve
  rw [if_neg (Nat.not_lt_of_le hbody), if_pos hdir]
  have hothers := filter_prune p body.length hdisk now
    (safeName callId ++ ".txt") ((dirs (safeName agent)).getD [])
  show (match disk.written with
    | .whole => _
    | .part k => _
    | .nothing => _ : Option ((String × String) × ℕ) × SpillDirs) = _
  rw [hothers]

/-- What a call leaves of its own directory. Any other it leaves as it was. -/
theorem preserve_cases (p : SpillPolicy) (hdisk : disk.Prunes) (now : ℕ) (agent callId : String)
    (body : List UInt8) (dirs : SpillDirs) :
    (p.preserve disk now agent callId body dirs).2 = dirs ∨
      body.length ≤ p.maxBytes ∧ ∃ written : List SpillFile,
        (p.preserve disk now agent callId body dirs).2 = Function.update dirs (safeName agent)
          (some (p.prune disk now (safeName callId ++ ".txt") body.length
            ((dirs (safeName agent)).getD []) ++ written)) ∧
        (written = [] ∨ ∃ f, written = [f] ∧ f.len ≤ body.length) := by
  by_cases hbody : body.length ≤ p.maxBytes
  · by_cases hdir : disk.createDir = true
    · refine .inr ⟨hbody, ?_⟩
      rw [preserve_of_le p hdisk hdir hbody]
      cases disk.written with
      | whole => exact ⟨_, rfl, .inr ⟨_, rfl, Nat.le_refl _⟩⟩
      | part k => exact ⟨_, rfl, .inr ⟨_, rfl, List.length_take_le' _ _⟩⟩
      | nothing => exact ⟨[], by rw [List.append_nil], .inl rfl⟩
    · unfold preserve
      rw [if_neg (Nat.not_lt_of_le hbody), if_neg hdir]
      exact .inl rfl
  · unfold preserve
    rw [if_pos (Nat.lt_of_not_le hbody)]
    exact .inl rfl

/-- Which files go: those past their age, the one that is written anew, and of the others the
oldest, no more of them than the new one needs. No other directory is touched. -/
theorem preserve_prunes_oldest (p : SpillPolicy) (hdisk : disk.Prunes)
    (hdir : disk.createDir = true) (hwritten : disk.written = .whole)
    (hbody : body.length ≤ p.maxBytes) (now : ℕ) (agent callId : String) (dirs : SpillDirs) :
    ∃ k, let left := p.retained now (safeName callId ++ ".txt") ((dirs (safeName agent)).getD [])
      (p.preserve disk now agent callId body dirs).2 = Function.update dirs (safeName agent)
        (some (left.drop k ++ [⟨safeName callId ++ ".txt", disk.mtime, body⟩])) ∧
      (Fits p body.length (left.drop k) ∨ left.length ≤ k) ∧
      ∀ j < k, ¬ Fits p body.length (left.drop j) := by
  obtain ⟨k, hk, hplace, hmin⟩ := prune_eq_drop p body.length hdisk now
    (safeName callId ++ ".txt") ((dirs (safeName agent)).getD [])
  refine ⟨k, ?_, hplace, hmin⟩
  rw [preserve_of_le p hdisk hdir hbody, hwritten, ← hk]

/-- A file system on which everything succeeds. -/
def soundDisk (mtime : ℕ) : Disk := ⟨true, true, fun _ => true, .whole, mtime⟩

theorem soundDisk_prunes (mtime : ℕ) : (soundDisk mtime).Prunes := ⟨rfl, fun _ => rfl⟩

/-- A directory whose second file is the older one. -/
def twoSpills : List SpillFile := [⟨"two.txt", 2, [2, 2]⟩, ⟨"one.txt", 1, [1, 1, 1]⟩]

/-- Place for two files: the third removes the first. -/
theorem preserve_prunes_oldest_third :
    ∃ k, let left := SpillPolicy.retained ⟨2, 12, 100⟩ 3 "three.txt" twoSpills
      (SpillPolicy.preserve ⟨2, 12, 100⟩ (soundDisk 3) 3 "agent" "three" [3]
          fun _ => some twoSpills).2 =
        Function.update (fun _ => some twoSpills) "agent"
          (some (left.drop k ++ [⟨"three.txt", 3, [3]⟩])) ∧
      (Fits ⟨2, 12, 100⟩ 1 (left.drop k) ∨ left.length ≤ k) ∧
      ∀ j < k, ¬ Fits ⟨2, 12, 100⟩ 1 (left.drop j) :=
  preserve_prunes_oldest ⟨2, 12, 100⟩ (soundDisk_prunes 3) rfl rfl (by decide) 3 "agent" "three"
    fun _ => some twoSpills

/-- One call of the store. -/
structure Call where
  disk : Disk
  now : ℕ
  agent : String
  callId : String
  body : List UInt8

def serve (p : SpillPolicy) (dirs : SpillDirs) (c : Call) :
    SpillDirs × Option ((String × String) × ℕ) :=
  let (kept, dirs') := p.preserve c.disk c.now c.agent c.callId c.body dirs
  (dirs', kept)

/-- Every directory there is stays within its bounds. -/
def AllWithinQuota (p : SpillPolicy) (dirs : SpillDirs) : Prop :=
  ∀ d files, dirs d = some files → p.WithinQuota files

theorem allWithinQuota_serve {c : Call} (hpos : 0 < p.maxFiles) (hdisk : c.disk.Prunes)
    (h : p.AllWithinQuota dirs) : p.AllWithinQuota (p.serve dirs c).1 := by
  show p.AllWithinQuota (p.preserve c.disk c.now c.agent c.callId c.body dirs).2
  obtain hsame | ⟨hbody, written, hdirs, hwritten⟩ :=
    p.preserve_cases hdisk c.now c.agent c.callId c.body dirs
  · rw [hsame]
    exact h
  · rw [hdirs]
    intro d files hd
    rw [Function.update_apply] at hd
    split at hd
    · cases hd
      obtain rfl | ⟨f, rfl, hlen⟩ := hwritten
      · rw [List.append_nil]
        have hfile : (SpillFile.mk "" 0 []).len ≤ c.body.length := Nat.zero_le _
        exact (withinQuota_prune_append hdisk hpos hbody _ _ hfile).of_append
      · exact withinQuota_prune_append hdisk hpos hbody _ _ hlen
    · exact h d files hd

/-- However many calls there are, of whatever agents and with whatever bodies, written whole, in
part or not at all: where directories can be read and files removed, no directory ever holds more
files or more bytes than the policy grants one agent. -/
theorem spills_within_quota (p : SpillPolicy) (hpos : 0 < p.maxFiles) (calls : List Call)
    (hdisk : ∀ c ∈ calls, c.disk.Prunes) :
    p.AllWithinQuota (Lib.Machine.run p.serve (fun _ => none) calls).1 :=
  Lib.Machine.run_invariant (fun _ _ h => by cases h) fun c hc _ h =>
    allWithinQuota_serve hpos (hdisk c hc) h

theorem spills_within_quota_two : SpillPolicy.ofRuntime.AllWithinQuota
    (Lib.Machine.run SpillPolicy.ofRuntime.serve (fun _ => none)
      [⟨soundDisk 1, 1, "agent", "one", [1]⟩, ⟨soundDisk 2, 2, "agent", "two", [2, 2]⟩]).1 :=
  spills_within_quota SpillPolicy.ofRuntime (by decide) _ fun c hc => by
    rcases List.mem_cons.mp hc with rfl | hc
    · exact soundDisk_prunes 1
    · rw [List.mem_singleton.mp hc]
      exact soundDisk_prunes 2

end SpillPolicy

end Horsie.Tools
