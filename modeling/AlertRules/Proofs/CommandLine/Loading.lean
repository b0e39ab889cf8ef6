import AlertRules.CommandLine.InMemory

/-!
# AlertRules.Proofs.CommandLine.Loading — what a command has read

Reading changes nothing (`Quiet`), so all that a command reads it reads from the tree as it was.  A
command about an event does what it does with the event and with what is loaded from the tree
(`withEvent_run`), and fails before it does anything if one of them cannot be had.
-/

namespace AlertRules.CommandLine

/-! ## Reading changes nothing -/

/-- The computation leaves every tree as it is. -/
def Quiet {α : Type} (x : StateM FileTree α) : Prop :=
  ∀ t, (x.run t).2 = t

section Quiet

variable {α β : Type} {x : StateM FileTree α} {f : α → StateM FileTree β}

theorem run_bind (x : StateM FileTree α) (f : α → StateM FileTree β) (t : FileTree) :
    (x >>= f).run t = (f (x.run t).1).run (x.run t).2 :=
  rfl

theorem quiet_pure (a : α) : Quiet (pure a) :=
  fun _ => rfl

/-- What comes behind a quiet computation starts from the same tree. -/
theorem Quiet.run_bind (hx : Quiet x) (t : FileTree) :
    (x >>= f).run t = (f (x.run t).1).run t := by
  rw [CommandLine.run_bind, hx t]

theorem Quiet.bind (hx : Quiet x) (hf : ∀ a, Quiet (f a)) : Quiet (x >>= f) := by
  intro t
  rw [hx.run_bind]
  exact hf _ t

theorem quiet_read (path : String) : Quiet (inMemory.read path) :=
  fun _ => rfl

end Quiet

section Loading

variable (environment : Environment) (common : Common)

theorem quiet_loadConfig : Quiet (loadConfig inMemory environment common) := by
  unfold loadConfig
  cases common.config with
  | some path => exact (quiet_read path).bind fun c => quiet_pure _
  | none =>
    apply (quiet_read _).bind
    intro home
    cases environment.configPath with
    | some path => exact (quiet_read path).bind fun named => quiet_pure _
    | none => exact quiet_pure _

theorem quiet_loadRooms : Quiet (loadRooms inMemory common) := by
  unfold loadRooms
  cases common.rooms with
  | some path => exact (quiet_read path).bind fun c => quiet_pure _
  | none => exact quiet_pure _

theorem quiet_loadEvent (path : String) : Quiet (loadEvent inMemory path) :=
  (quiet_read path).bind fun _ => quiet_pure _

theorem quiet_load : Quiet (load inMemory environment common) := by
  apply (quiet_loadConfig environment common).bind
  intro config?
  cases config? with
  | error fault => exact quiet_pure _
  | ok config =>
    apply (quiet_loadRooms common).bind
    intro rooms?
    cases rooms? with
    | error fault => exact quiet_pure _
    | ok rooms => exact (quiet_read common.rules).bind fun c => quiet_pure _

end Loading

/-! ## With what has been read -/

/-- The settings, the rooms and the rules in the tree. -/
def loadedFrom (environment : Environment) (common : Common) (t : FileTree) :
    Except File.Fault Loaded :=
  ((load inMemory environment common).run t).1

variable {environment : Environment} {common : Common} {t : FileTree}

theorem withLoaded_run {run : Loaded → StateM FileTree Outcome} :
    (withLoaded inMemory environment common run).run t =
      match loadedFrom environment common t with
      | .error fault => (.failing fault.message, t)
      | .ok l => (run l).run t := by
  unfold withLoaded
  rw [(quiet_load environment common).run_bind]
  show (match loadedFrom environment common t with
    | .error fault => _
    | .ok l => _ : StateM FileTree Outcome).run t = _
  cases loadedFrom environment common t <;> rfl

theorem withEvent_run {path : String} {run : Loaded → Event → StateM FileTree Outcome} :
    (withEvent inMemory environment common path run).run t =
      match eventOf path (t.read path) with
      | .error fault => (.failing fault.message, t)
      | .ok e =>
        match loadedFrom environment common t with
        | .error fault => (.failing fault.message, t)
        | .ok l => (run l e).run t := by
  unfold withEvent
  rw [(quiet_loadEvent path).run_bind]
  show (match eventOf path (t.read path) with
    | .error fault => _
    | .ok l => _ : StateM FileTree Outcome).run t = _
  cases eventOf path (t.read path) with
  | error fault => rfl
  | ok e => exact withLoaded_run

/-- The settings in the tree. -/
def configFrom (environment : Environment) (common : Common) (t : FileTree) :
    Except File.Fault Config :=
  ((loadConfig inMemory environment common).run t).1

/-- What is loaded are the settings, and the rules as they can be read under their path. -/
theorem loaded_parts {l : Loaded} (h : loadedFrom environment common t = .ok l) :
    configFrom environment common t = .ok l.config ∧
      l.source = ⟨common.rules, t.read common.rules⟩ := by
  unfold loadedFrom load at h
  rw [(quiet_loadConfig environment common).run_bind] at h
  unfold configFrom
  cases hconfig : ((loadConfig inMemory environment common).run t).1 with
  | error fault =>
    rw [hconfig] at h
    exact absurd (show Except.error fault = Except.ok l from h) (by simp)
  | ok config =>
    rw [hconfig] at h
    dsimp only at h
    rw [(quiet_loadRooms common).run_bind] at h
    cases hrooms : ((loadRooms inMemory common).run t).1 with
    | error fault =>
      rw [hrooms] at h
      exact absurd (show Except.error fault = Except.ok l from h) (by simp)
    | ok rooms =>
      rw [hrooms] at h
      obtain rfl := Except.ok.inj h
      exact ⟨rfl, rfl⟩

theorem source_of_loaded {l : Loaded} (h : loadedFrom environment common t = .ok l) :
    l.source = ⟨common.rules, t.read common.rules⟩ :=
  (loaded_parts h).2

/-! ## The program run -/

theorem run_eq_runCommand {args : List String} {command : Command}
    (h : Command.read args = .ok command) :
    run inMemory environment args = runCommand inMemory environment command := by
  unfold run
  rw [h]

end AlertRules.CommandLine
