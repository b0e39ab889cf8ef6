import AlertRules.Proofs.Matching.Cached
import AlertRules.Proofs.Service.Runs

/-!
# AlertRules.Proofs.Service.Answers — the file answers

A service whose file nobody else writes cannot be told from one that reads the file whenever it is
asked: its rules are what the file gives at that moment, a failure included, and its matches are made
against them.  A failed change must invalidate the cache as well for this to hold, since it may have
reached the file.  No operation moves the file or changes the setting (`SamePlace`), and in a settled
service the cache agrees with the file (`Settled.answersByFile`), which every run keeps.
-/

namespace AlertRules.Service

/-! ## What no operation changes -/

/-- **`s.SamePlace s'`** — the two services have the same path and the same setting. -/
structure SamePlace (s s' : Service) : Prop where
  path_eq : s'.path = s.path
  setting_eq : s'.setting = s.setting

theorem SamePlace.trans {s s' s'' : Service} (h : SamePlace s s') (h' : SamePlace s' s'') :
    SamePlace s s'' :=
  ⟨h'.path_eq.trans h.path_eq, h'.setting_eq.trans h.setting_eq⟩

theorem samePlace_getRules (s : Service) : SamePlace s s.getRules.2 :=
  ⟨rfl, rfl⟩

theorem samePlace_match? (s : Service) (e : Event) : SamePlace s (s.match? e).2 := by
  unfold match?
  split
  · rename_i heq
    exact ⟨congrArg (fun answer => answer.2.path) heq.symm,
      congrArg (fun answer => answer.2.setting) heq.symm⟩
  · rename_i heq
    exact ⟨congrArg (fun answer => answer.2.path) heq.symm,
      congrArg (fun answer => answer.2.setting) heq.symm⟩

theorem samePlace_addFor (s : Service) (pattern : String) (actions : List Action) :
    SamePlace s (s.addFor pattern actions).2 := by
  rw [addFor_eq]
  exact ⟨rfl, rfl⟩

theorem samePlace_addContent (s : Service) (pattern : String) (actions : List Action) :
    SamePlace s (s.addContent pattern actions).2 := by
  cases hrules : s.cache.hasRules with
  | true =>
    rw [addContent_of_hasRules hrules]
    exact samePlace_addFor s pattern actions
  | false =>
    cases hget : s.getRules.1 with
    | error failure =>
      rw [addContent_of_failed hrules hget]
      exact samePlace_getRules s
    | ok fetched =>
      rw [addContent_of_loaded hrules hget]
      exact (samePlace_getRules s).trans (samePlace_addFor s.getRules.2 pattern actions)

theorem samePlace_step (s : Service) (op : Op) : SamePlace s (s.step op) := by
  cases op with
  | find e => exact samePlace_match? s e
  | addContent pattern actions => exact samePlace_addContent s pattern actions
  | _ => exact ⟨rfl, rfl⟩

theorem samePlace_run (s : Service) (ops : List Op) : SamePlace s (s.run ops) := by
  induction ops generalizing s with
  | nil => exact ⟨rfl, rfl⟩
  | cons op ops ih => exact (samePlace_step s op).trans (ih (s.step op))

/-! ## Answers -/

/-- **`s.AnswersByFile path setting`** — the service answers as if it read the file at the path whenever
it is asked, and matched without a cache. -/
structure AnswersByFile (s : Service) (path : String) (setting : Setting) : Prop where
  /-- Whoever asks for the rules gets what the file gives. -/
  get : s.getRules.1.map Fetched.rules = RulesFile.fetch path s.file
  /-- An event is matched against those rules. -/
  find : ∀ e, (s.match? e).1 =
    (RulesFile.fetch path s.file).map fun rules => rules.match? setting e
  /-- The rules in the cache, while they are current, are those in the file. -/
  current : s.cache.isCurrent = true → RulesFile.fetch path s.file = .ok s.cache.rulesNow

/-- The match is the one without a cache of globs, among the rules that the caller gets. -/
theorem match?_fst (s : Service) (e : Event) :
    (s.match? e).1 =
      (s.getRules.1.map Fetched.rules).map fun rules => rules.match? s.setting e := by
  unfold match?
  split
  · rename_i heq
    rw [heq]
    rfl
  · rename_i fetched s' heq
    have hsetting : s'.setting = s.setting := congrArg (fun answer => answer.2.setting) heq.symm
    rw [heq, ← hsetting]
    exact congrArg Except.ok (fetched.rules.matchCached?_eq_match? s'.setting e s'.globs)

theorem Settled.rules_eq_fetch {s : Service} (h : s.Settled) :
    s.getRules.1.map Fetched.rules = s.fetch := by
  cases h.answered with
  | loaded fetched answer fetch_eq _ =>
    rw [answer, fetch_eq]
    rfl
  | failed failure answer fetch_eq _ =>
    rw [answer, fetch_eq]
    rfl

theorem Settled.fetch_of_isCurrent {s : Service} (h : s.Settled)
    (hcurrent : s.cache.isCurrent = true) : s.fetch = .ok s.cache.rulesNow := by
  obtain ⟨hflag, hsome⟩ := (Bool.and_eq_true_iff).mp hcurrent
  obtain ⟨fetched, hlatest⟩ := Option.isSome_iff_exists.mp hsome
  have hhand : s.cache.atHand? = some fetched := by
    rw [FetchCache.atHand?, if_pos hflag, hlatest]
  have hnow : s.cache.rulesNow = fetched.rules := by
    rw [FetchCache.rulesNow, hlatest]
    rfl
  rw [hnow]
  exact h.current fetched hhand

theorem Settled.answersByFile {s : Service} (h : s.Settled) :
    s.AnswersByFile s.path s.setting where
  get := h.rules_eq_fetch
  find e := by rw [match?_fst, h.rules_eq_fetch, fetch]
  current := h.fetch_of_isCurrent

/-- **`run_answersByFile`** — whatever operations are completed one after the other on a new service, it
then gives everyone who asks the rules that the file holds at that moment, or the reason why it holds
none, and matches events against them; and what its cache takes for current is what the file holds. -/
theorem run_answersByFile (path : String) (file : File.Content) (setting : Setting)
    (ops : List Op) : ((start path file setting).run ops).AnswersByFile path setting := by
  have hplace := samePlace_run (start path file setting) ops
  have hanswers := ((settled_start path file setting).run ops).answersByFile
  rw [hplace.path_eq, hplace.setting_eq] at hanswers
  exact hanswers

end AlertRules.Service
