import KiroCrew.Lib.Machine

/-!
# Gateway state across a gateway restart

`KiroCrewSupervisor.start` chooses the gateway's data home anew: the directory inside the workspace
when the file system there passes the WAL probe, otherwise a staged copy, which `materialize` first
replaces by a mirror of the workspace directory. A checkpoint mirrors the staged copy back
(`synchronize`). So the workspace directory wins every restart: in staged mode what the gateway
wrote since the last mirror is gone (`restart_loses_write`), in direct mode there is only one copy
(`restart_home_iff`).
-/

namespace KiroCrew.Staging

/-- A path below a data home. -/
abbrev Path := List (List Char)

/-- A JSON object as far as the pins look at it: its sections, `none` for one that is no object. -/
abbrev Document := String → Option (Option (String → Option String))

/-- A file: an object document, or any other bytes. -/
inductive Content
  | bytes (b : List Nat)
  | object (d : Document)

/-- A data home: its files. -/
abbrev Home := Path → Option Content

/-- `_ignore_shared_memory`, which `copytree` applies to the names of every level. -/
def sharedMemory (p : Path) : Bool := p.any fun name => "-shm".toList.isSuffixOf name

/-- `_mirror_directory(source, destination)`: the new destination. -/
def mirror (source : Home) : Home := fun p => if sharedMemory p then none else source p

/-- The files `_scrub_runtime_residue` removes. -/
def residue : Path → Bool
  | [name] => name = "gateway.lock".toList || name = ".crons.lock".toList || name =
      "kiro_pids.lock".toList
  | [directory, name] => directory = "run".toList && "gateway-".toList.isPrefixOf name
  | _ => false

/-- The database the WAL probe creates and removes. -/
def probe : Path → Bool
  | [name] =>
    name = ".kirocrew-wal-probe.db".toList || name = ".kirocrew-wal-probe.db-wal".toList ||
      name = ".kirocrew-wal-probe.db-shm".toList
  | _ => false

def remove (q : Path → Bool) (home : Home) : Home := fun p => if q p then none else home p

/-- What a document is pinned to: values for keys of sections. -/
abbrev Pins := List (String × List (String × String))

/-- Set every pinned key; a section that is missing or no object is started anew. -/
def Pins.set (pins : Pins) (d : Document) : Document := fun section_ =>
  match pins.lookup section_ with
  | none => d section_
  | some entries =>
    let current : String → Option String := match d section_ with
      | some (some s) => s
      | _ => fun _ => none
    some (some fun key => (entries.lookup key).or (current key))

/-- A pinned file: created when missing, left as it is when it is no object. -/
def Pins.write (pins : Pins) : Option Content → Option Content
  | none => some (.object (pins.set fun _ => none))
  | some (.bytes b) => some (.bytes b)
  | some (.object d) => some (.object (pins.set d))

def localConfigPins : Pins :=
  [("dashboard", [("loop_stall_exit_after_secs", "300")]), ("agent", [("acp_backend", "kiro")])]

/-- `_pin_local_config`, and `_pin_mcp_server` for the servers the environment configures. -/
def pinned (servers : List (String × String)) (p : Path) (c : Option Content) : Option Content :=
  if p = ["config.local.json".toList] then localConfigPins.write c
  else if p = ["mcp.json".toList] ∧ servers ≠ [] then Pins.write [("mcpServers", servers)] c
  else c

/-- What `start` does to the chosen home before it launches the gateway. -/
def prepare (servers : List (String × String)) (home : Home) : Home := fun p =>
    pinned servers p (remove residue home p)

inductive Mode
  | direct | staged
deriving DecidableEq, Repr

/-- The supervisor and the two copies of the state. -/
structure Supervisor where
  authoritative : Home := fun _ => none
  staged : Home := fun _ => none
  /-- `_state_home` -/
  stateHome : Mode := .direct
  /-- `_staging is not None` -/
  staging : Bool := false
  live : Bool := false

namespace Supervisor

variable (servers : List (String × String))

/-- The data home the gateway runs on. -/
def home (s : Supervisor) : Home :=
  match s.stateHome with
  | .direct => s.authoritative
  | .staged => s.staged

inductive Event
  /-- The gateway completes a write, or a deletion, of a file. -/
  | write (p : Path) (c : Option Content)
  /-- `synchronize_state` of a checkpoint that has paused the gateway. -/
  | flush
  | crash
  /-- `start`: the outcomes of the two WAL probes and whether the gateway became ready. -/
  | start (workspaceHosts stagedHosts becameReady : Bool)

/-- `start` from `_resolve_state_home` on. -/
def start (s : Supervisor) (workspaceHosts stagedHosts becameReady : Bool) : Supervisor :=
  let probed := remove probe s.authoritative
  if workspaceHosts then
    { s with authoritative := prepare servers probed, stateHome := .direct, staging := false,
             live := becameReady }
  else if stagedHosts then
    { s with
      authoritative := probed
      staged := prepare servers (remove probe (mirror probed))
      stateHome := .staged
      staging := true
      live := becameReady }
  else
    -- no file system can host the database: raised before `_state_home` is set
    { s with authoritative := probed, staged := remove probe (mirror probed), staging := false }

def step (s : Supervisor) : Event → Option Supervisor
  | .write p c =>
    if s.live then
      match s.stateHome with
      | .direct => some { s with authoritative := Function.update s.authoritative p c }
      | .staged => some { s with staged := Function.update s.staged p c }
    else none
  | .flush =>
    -- `pause` before it asserts a running gateway; one that dies between the two is left out
    if s.live then some (if s.staging then { s with authoritative := mirror s.staged } else s)
      else none
  | .crash => some { s with live := false }
  | .start workspaceHosts stagedHosts becameReady =>
    if s.live then none else some (s.start servers workspaceHosts stagedHosts becameReady)

end Supervisor

/-- Shared memory, residue and the probe's own database: what a restart need not keep. -/
def excepted (p : Path) : Bool := sharedMemory p || residue p || probe p

section

variable {servers : List (String × String)} {s s₁ s₂ : Supervisor} {p : Path}

theorem Pins.set_set (pins : Pins) (d : Document) : pins.set (pins.set d) = pins.set d := by
  funext name
  unfold Pins.set
  cases pins.lookup name with
  | none => rfl
  | some entries =>
    simp only [Option.some.injEq]
    funext key
    cases entries.lookup key <;> rfl

theorem Pins.write_write (pins : Pins) (c : Option Content) : pins.write (pins.write c) =
    pins.write c := by
  rcases c with _ | ⟨b⟩ | ⟨d⟩
  · simp [Pins.write, Pins.set_set]
  · rfl
  · simp [Pins.write, Pins.set_set]

theorem pinned_pinned (c : Option Content) : pinned servers p (pinned servers p c) =
    pinned servers p c := by
  unfold pinned
  split
  · exact Pins.write_write _ c
  · split
    · exact Pins.write_write _ c
    · rfl

theorem prepare_of_not_excepted {home : Home} (hp : excepted p = false) :
    prepare servers home p = pinned servers p (home p) := by
  simp only [excepted, Bool.or_eq_false_iff] at hp
  simp [prepare, remove, hp.1.2]

theorem remove_probe_of_not_excepted {home : Home} (hp : excepted p = false) :
    remove probe home p = home p := by
  simp only [excepted, Bool.or_eq_false_iff] at hp
  simp [remove, hp.2]

theorem mirror_of_not_excepted {home : Home} (hp : excepted p = false) :
    mirror home p = home p := by
  simp only [excepted, Bool.or_eq_false_iff] at hp
  simp [mirror, hp.1.1]

/-- The workspace copy agrees with the data home, up to the pins and what is excepted. -/
def Synced (servers : List (String × String)) (s : Supervisor) : Prop :=
  ∀ p, excepted p = false → pinned servers p (s.authoritative p) = pinned servers p (s.home p)

/-- Every event of the run happens while the gateway is down. -/
def down (s : Supervisor) (_ : Supervisor.Event) : Prop := s.live = false

/-- While the gateway is down the workspace copy stays, up to the pins, and a gateway that comes up
runs on it. -/
structure FromWorkspace (servers : List (String × String)) (crashed s : Supervisor) : Prop where
  workspace : ∀ p, excepted p = false →
    pinned servers p (s.authoritative p) = pinned servers p (crashed.authoritative p)
  home : s.live = true → ∀ p, excepted p = false →
    s.home p = pinned servers p (crashed.authoritative p)

theorem FromWorkspace.step {e : Supervisor.Event} (h : FromWorkspace servers s s₁)
    (hdown : down s₁ e)
    (he : s₁.step servers e = some s₂) : FromWorkspace servers s s₂ := by
  have hlive : s₁.live = false := hdown
  cases e with
  | write | flush => simp [Supervisor.step, hlive] at he
  | crash =>
    obtain rfl := Option.some.inj he
    exact ⟨h.workspace, by simp⟩
  | start workspaceHosts stagedHosts becameReady =>
    simp only [Supervisor.step, hlive, Bool.false_eq_true, if_false, Option.some.injEq] at he
    subst he
    unfold Supervisor.start
    cases workspaceHosts with
    | true =>
      have hhome : ∀ p, excepted p = false →
          prepare servers (remove probe s₁.authoritative) p = pinned servers p
          (s.authoritative p) := by
        intro p hp
        rw [prepare_of_not_excepted hp, remove_probe_of_not_excepted hp]
        exact h.workspace p hp
      refine ⟨fun p hp => ?_, fun _ p hp => hhome p hp⟩
      simp only [if_true]
      rw [hhome p hp, pinned_pinned]
    | false =>
      have hworkspace : ∀ p, excepted p = false →
          pinned servers p (remove probe s₁.authoritative p) = pinned servers p
          (s.authoritative p) := by
        intro p hp
        rw [remove_probe_of_not_excepted hp]
        exact h.workspace p hp
      cases stagedHosts with
      | true =>
        refine ⟨fun p hp => hworkspace p hp, fun _ p hp => ?_⟩
        show prepare servers (remove probe (mirror (remove probe s₁.authoritative))) p = _
        rw [prepare_of_not_excepted hp, remove_probe_of_not_excepted hp, mirror_of_not_excepted hp]
        exact hworkspace p hp
      | false =>
        refine ⟨fun p hp => hworkspace p hp, fun hl => ?_⟩
        simp [hlive] at hl

/-- A gateway that comes up after a crash finds every file of its home at the crash, up to the pins,
exactly when the workspace copy had it. -/
theorem restart_home_iff (hcrash : s.step servers .crash = some s₁)
    (hrun : Machine.Reaches (Supervisor.step servers) down s₁ s₂) (hlive : s₂.live = true) :
    (∀ p, excepted p = false → s₂.home p = pinned servers p (s.home p)) ↔ Synced servers s := by
  obtain rfl := Option.some.inj hcrash
  have h : FromWorkspace servers s s₂ :=
    hrun.invariant (I := fun t => FromWorkspace servers s t) (fun _ _ _ hs hC he => hs.step hC he)
      ⟨fun _ _ => rfl, by simp⟩
  constructor
  · intro hhome p hp
    rw [← h.home hlive p hp, hhome p hp]
  · intro hagree p hp
    rw [h.home hlive p hp, hagree p hp]

theorem synced_of_direct (h : s.stateHome = .direct) : Synced servers s := by
  intro p _
  rw [Supervisor.home, h]

/-- Only a write to a staged home takes the two copies apart. -/
theorem Synced.step {e : Supervisor.Event} (h : Synced servers s)
    (hwrite : ∀ p c, e = .write p c → s.stateHome = .direct) (he : s.step servers e = some s₁) :
    Synced servers s₁ := by
  cases e with
  | write p c =>
    have hdirect := hwrite p c rfl
    simp only [Supervisor.step, hdirect] at he
    split at he
    · obtain rfl := Option.some.inj he
      exact synced_of_direct rfl
    · simp at he
  | flush =>
    simp only [Supervisor.step] at he
    split at he
    · obtain rfl := Option.some.inj he
      split
      · cases hm : s.stateHome with
        | direct => exact synced_of_direct rfl
        | staged =>
          intro p hp
          simp only [Supervisor.home]
          rw [mirror_of_not_excepted hp]
      · exact h
    · simp at he
  | crash =>
    obtain rfl := Option.some.inj he
    exact h
  | start workspaceHosts stagedHosts becameReady =>
    simp only [Supervisor.step] at he
    split at he
    · simp at he
    · obtain rfl := Option.some.inj he
      unfold Supervisor.start
      cases workspaceHosts with
      | true => exact synced_of_direct rfl
      | false =>
        cases stagedHosts with
        | true =>
          intro p hp
          show pinned servers p (remove probe s.authoritative p) =
            pinned servers p (prepare servers
            (remove probe (mirror (remove probe s.authoritative))) p)
          rw [remove_probe_of_not_excepted hp, prepare_of_not_excepted hp,
            remove_probe_of_not_excepted hp,
            mirror_of_not_excepted hp, remove_probe_of_not_excepted hp, pinned_pinned]
        | false =>
          cases hm : s.stateHome with
          | direct => exact synced_of_direct rfl
          | staged =>
            intro p hp
            simp only [Supervisor.home, Bool.false_eq_true, if_false]
            rw [remove_probe_of_not_excepted hp, remove_probe_of_not_excepted hp,
              mirror_of_not_excepted hp,
              remove_probe_of_not_excepted hp]

/-- Every state a container's supervisor comes to, from any restored workspace. -/
def Reachable (servers : List (String × String)) (s : Supervisor) : Prop :=
  ∃ restored : Home, Machine.Reaches (Supervisor.step servers) Machine.Any
    { authoritative := restored } s

end

instance (s : Supervisor) (e : Supervisor.Event) : Decidable (down s e) :=
  inferInstanceAs (Decidable (_ = _))

/-- A staged gateway of an empty sandbox writes its database. -/
def wroteStaged : Supervisor :=
  (Machine.runAlong (Supervisor.step []) Machine.Any {}
    [.start false true true, .write ["memory.db".toList] (some (.bytes [1]))]).get (by decide)

def crashedStaged : Supervisor := { wroteStaged with live := false }

def restartedStaged : Supervisor := (crashedStaged.step [] (.start false true true)).get (by decide)

theorem restart_home_staged :
    (∀ p, excepted p = false → restartedStaged.home p = pinned [] p (wroteStaged.home p)) ↔
    Synced [] wroteStaged :=
  restart_home_iff rfl (.single (e := .start false true true) rfl (Option.some_get _).symm) rfl

/-- In staged mode a write that no checkpoint has mirrored is gone after the restart. -/
theorem restart_loses_write : ¬ ∀ (servers : List (String × String)) (s s₁ s₂ : Supervisor),
    Reachable servers s →
    s.live = true → s.step servers .crash = some s₁ →
    Machine.Reaches (Supervisor.step servers) down s₁ s₂ →
    s₂.live = true → ∀ p, excepted p = false → s₂.home p = pinned servers p (s.home p) := by
  intro h
  have hkept := h [] wroteStaged crashedStaged restartedStaged ⟨fun _ => none, .of_isSome _⟩ rfl rfl
    (.single (e := .start false true true) rfl (Option.some_get _).symm) rfl
      ["memory.db".toList] (by decide)
  have hlost : restartedStaged.home ["memory.db".toList] = none := rfl
  have hwritten : pinned [] ["memory.db".toList] (wroteStaged.home ["memory.db".toList]) =
    some (.bytes [1]) := rfl
  rw [hlost, hwritten] at hkept
  simp at hkept

end KiroCrew.Staging
