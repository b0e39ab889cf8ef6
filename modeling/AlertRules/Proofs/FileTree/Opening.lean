import AlertRules.FileTree

/-!
# AlertRules.Proofs.FileTree.Opening — opening a path a second time

Opening a path creates directories, and perhaps a file, and takes nothing away: every directory stays a
directory (`Within`).  A way that has been walked can then be walked again, so opening a path once more
changes nothing and finds the same (`opened_opened`), and what is read there is what was found.  What is
written into a file that was opened is found there afterwards (`Holds.write`).
-/

namespace AlertRules.FileTree

/-! ## Directories stay -/

theorem lookup_filter_ne {name other : String} (entries : List (String × Node)) (h : other ≠ name) :
    (entries.filter (·.1 ≠ name)).lookup other = entries.lookup other := by
  induction entries with
  | nil => rfl
  | cons entry entries ih =>
    by_cases hname : entry.1 = name
    · have hother : (other == entry.1) = false := beq_false_of_ne (hname ▸ h)
      rw [List.filter_cons_of_neg (by simpa using hname), ih, List.lookup_cons, hother]
    · rw [List.filter_cons_of_pos (by simpa using hname), List.lookup_cons, List.lookup_cons, ih]

/-- A directory lies behind these names. -/
def Node.IsDirectory (node : Node) (place : List String) : Prop :=
  ∃ entries, node.at? place = some (.directory entries)

theorem Node.exists_directory {node : Node} {place : List String} (h : node.IsDirectory place) :
    ∃ entries, node = .directory entries := by
  obtain ⟨held, h⟩ := h
  cases node with
  | directory entries => exact ⟨entries, rfl⟩
  | _ => cases place <;> simp [Node.at?] at h

theorem Node.at?_directory_cons {entries : List (String × Node)} {name : String}
    {place : List String} :
    (Node.directory entries).at? (name :: place) = (entries.lookup name).bind (·.at? place) := by
  rw [Node.at?]
  cases entries.lookup name <;> rfl

/-- Whatever becomes of the entry of one name, the other entries are as before. -/
theorem Node.exists_put_cons (new : Node) (name : String) (place : List String)
    (entries : List (String × Node)) :
    ∃ held, Node.put (some new) (name :: place) (some (.directory entries)) =
        some (.directory held) ∧ (∀ n, n ≠ name → held.lookup n = entries.lookup n) ∧
      ∀ child, Node.put (some new) place (entries.lookup name) = some child →
        held.lookup name = some child := by
  rw [Node.put]
  cases Node.put (some new) place (entries.lookup name) with
  | none =>
    refine ⟨_, rfl, ?_, ?_⟩
    · intro n hn
      exact lookup_filter_ne entries hn
    · intro child hchild
      exact absurd hchild (by simp)
  | some child =>
    refine ⟨_, rfl, ?_, ?_⟩
    · intro n hn
      rw [List.lookup_cons, beq_false_of_ne hn]
      exact lookup_filter_ne entries hn
    · intro child' hchild
      rw [List.lookup_cons, beq_self_eq_true]
      exact hchild

/-- What is laid where there is no directory leaves all directories. -/
theorem Node.isDirectory_put (new : Node) {place other : List String} {node : Node}
    (hplace : ¬ node.IsDirectory place) (hother : node.IsDirectory other) :
    ∃ node', Node.put (some new) place (some node) = some node' ∧ node'.IsDirectory other := by
  induction place generalizing node other with
  | nil =>
    obtain ⟨entries, rfl⟩ := exists_directory hother
    exact absurd ⟨entries, rfl⟩ hplace
  | cons name place ih =>
    obtain ⟨entries, rfl⟩ := exists_directory hother
    obtain ⟨held, hresult, hothers, hown⟩ := exists_put_cons new name place entries
    refine ⟨_, hresult, ?_⟩
    cases other with
    | nil => exact ⟨held, rfl⟩
    | cons n other =>
      obtain ⟨found, hfound⟩ := hother
      rw [at?_directory_cons] at hfound
      obtain ⟨child, hchild, hat⟩ := Option.bind_eq_some_iff.mp hfound
      by_cases hn : n = name
      · subst hn
        have hinside : ¬ child.IsDirectory place := by
          rintro ⟨es, hes⟩
          refine hplace ⟨es, ?_⟩
          rw [at?_directory_cons, hchild, Option.bind_some, hes]
        obtain ⟨child', hchild', es, hes⟩ := ih hinside ⟨found, hat⟩
        refine ⟨es, ?_⟩
        rw [at?_directory_cons, hown child' (hchild ▸ hchild'), Option.bind_some, hes]
      · refine ⟨found, ?_⟩
        rw [at?_directory_cons, hothers n hn, hchild, Option.bind_some, hat]

/-- A directory lies at the place. -/
def IsDirectory (t : FileTree) (place : List String) : Prop :=
  (Node.directory t.entries).IsDirectory place

/-- **`t.Within t'`** — the directories of the one tree are directories of the other, and the reader
stands at the same place. -/
structure Within (t t' : FileTree) : Prop where
  here_eq : t'.here = t.here
  directories : ∀ place, t.IsDirectory place → t'.IsDirectory place

theorem Within.refl (t : FileTree) : t.Within t :=
  ⟨rfl, fun _ h => h⟩

theorem Within.trans {t t' t'' : FileTree} (h : t.Within t') (h' : t'.Within t'') : t.Within t'' :=
  ⟨h'.here_eq.trans h.here_eq, fun place hplace => h'.directories place (h.directories place hplace)⟩

variable {t t' : FileTree} {place : List String}

theorem within_put (new : Node) (h : ¬ t.IsDirectory place) : t.Within (t.put place (some new)) := by
  constructor
  · unfold put
    split <;> rfl
  · intro other hother
    obtain ⟨node, hput, hnode⟩ := Node.isDirectory_put new h hother
    obtain ⟨entries, rfl⟩ := Node.exists_directory hnode
    rw [put, hput]
    exact hnode

/-- Above a directory there are directories. -/
theorem Node.isDirectory_dropLast {node : Node} (h : node.IsDirectory place) :
    node.IsDirectory place.dropLast := by
  induction place generalizing node with
  | nil => exact h
  | cons name place ih =>
    obtain ⟨entries, rfl⟩ := exists_directory h
    cases place with
    | nil => exact ⟨entries, rfl⟩
    | cons next place =>
      obtain ⟨held, hheld⟩ := h
      rw [at?_directory_cons] at hheld
      obtain ⟨child, hchild, hat⟩ := Option.bind_eq_some_iff.mp hheld
      obtain ⟨above, habove⟩ := ih ⟨held, hat⟩
      refine ⟨above, ?_⟩
      rw [List.dropLast_cons_cons, at?_directory_cons, hchild, Option.bind_some, habove]

theorem IsDirectory.dropLast (h : t.IsDirectory place) : t.IsDirectory place.dropLast :=
  Node.isDirectory_dropLast h

/-! ## Walking -/

theorem step_eq_ok_iff {part : String} {next : List String} :
    t.step place part = .ok next ↔
      t.IsDirectory place ∧ part.utf8ByteSize ≤ Path.maxNameLength ∧ beside place part = next := by
  unfold step
  split
  · rename_i hnone
    refine iff_of_false (by simp) ?_
    rintro ⟨⟨entries, hentries⟩, -⟩
    exact absurd (hnone.symm.trans hentries) (by simp)
  · rename_i entries hentries
    by_cases hlength : part.utf8ByteSize ≤ Path.maxNameLength
    · rw [if_pos hlength, Except.ok.injEq]
      exact ⟨fun h => ⟨⟨entries, hentries⟩, hlength, h⟩, fun h => h.2.2⟩
    · rw [if_neg hlength]
      exact iff_of_false (by simp) fun h => hlength h.2.1
  · rename_i node hdirectory hnode
    refine iff_of_false (by simp) ?_
    rintro ⟨⟨entries, hentries⟩, -⟩
    exact hdirectory entries (Option.some.inj (hnode.symm.trans hentries))

/-- Where something other than a directory is reached, it is in a directory. -/
theorem parent_of_beside {part : String} (h : t.IsDirectory place)
    (hnot : ¬ t.IsDirectory (beside place part)) :
    beside place part ≠ [] ∧ t.IsDirectory (beside place part).dropLast := by
  unfold beside at hnot ⊢
  split at hnot
  · exact absurd h hnot
  · split at hnot
    · exact absurd h.dropLast hnot
    · rename_i hidle hup
      rw [if_neg hidle, if_neg hup, List.dropLast_concat]
      exact ⟨by simp, h⟩

theorem locate_eq_ok_iff {path : String} :
    t.locate path = .ok place ↔
      checked path = .ok () ∧ path ≠ "" ∧
        (Path.parts path).foldlM t.step (t.start path) = .ok place := by
  unfold locate
  cases checked path with
  | error obstacle => exact iff_of_false (by simp [bind, Except.bind]) (by simp)
  | ok u =>
    by_cases hempty : path = ""
    · exact iff_of_false (by simp [bind, Except.bind, hempty]) (by simp [hempty])
    · simp [bind, Except.bind, hempty]

theorem foldlM_step_mono (h : t.Within t') {parts : List String} {start : List String}
    (hparts : parts.foldlM t.step start = .ok place) : parts.foldlM t'.step start = .ok place := by
  induction parts generalizing start with
  | nil => exact hparts
  | cons part parts ih =>
    rw [List.foldlM_cons] at hparts ⊢
    cases hstep : t.step start part with
    | error obstacle =>
      rw [hstep] at hparts
      exact absurd hparts (by simp [bind, Except.bind])
    | ok next =>
      rw [hstep] at hparts
      obtain ⟨hdirectory, hlength, hnext⟩ := step_eq_ok_iff.mp hstep
      rw [step_eq_ok_iff.mpr ⟨h.directories start hdirectory, hlength, hnext⟩]
      exact ih hparts

theorem start_eq (h : t.Within t') (path : String) : t'.start path = t.start path := by
  rw [start, start, h.here_eq]

/-- A path leads to the same place once there are more directories. -/
theorem locate_mono (h : t.Within t') {path : String} (hpath : t.locate path = .ok place) :
    t'.locate path = .ok place := by
  obtain ⟨hchecked, hne, hparts⟩ := locate_eq_ok_iff.mp hpath
  refine locate_eq_ok_iff.mpr ⟨hchecked, hne, ?_⟩
  rw [start_eq h]
  exact foldlM_step_mono h hparts

/-- What a path leads to lies in a directory, unless it is one itself. -/
theorem parent_of_locate {path : String} (hpath : t.locate path = .ok place)
    (hnot : ¬ t.IsDirectory place) : place ≠ [] ∧ t.IsDirectory place.dropLast := by
  obtain ⟨-, -, hparts⟩ := locate_eq_ok_iff.mp hpath
  have hne : Path.parts path ≠ [] := by
    simpa [Path.parts] using Text.pieces_ne_nil '/' path.toList
  obtain ⟨before, last, hlast⟩ := (List.eq_nil_or_concat _).resolve_left hne
  rw [hlast, List.concat_eq_append, List.foldlM_append] at hparts
  cases hbefore : before.foldlM t.step (t.start path) with
  | error obstacle =>
    rw [hbefore] at hparts
    exact absurd hparts (by simp [bind, Except.bind])
  | ok above =>
    rw [hbefore] at hparts
    have hstep : t.step above last = .ok place := by
      rw [← bind_pure (t.step above last)]
      exact hparts
    obtain ⟨hdirectory, -, rfl⟩ := step_eq_ok_iff.mp hstep
    exact parent_of_beside hdirectory hnot

/-- What is laid at the place to which a path leads lies there. -/
theorem at?_put_of_locate {path : String} (hpath : t.locate path = .ok place)
    (hnot : ¬ t.IsDirectory place) (new : Node) :
    (t.put place (some new)).at? place = some new := by
  obtain ⟨hne, entries, hentries⟩ := parent_of_locate hpath hnot
  exact at?_put_self t new hne hentries

/-! ## Directories on the way -/

section MakeDirectories

variable {name : String} {names next : List String}

theorem makeDirectories_of_error {obstacle : Obstacle} (h : t.step place name = .error obstacle) :
    t.makeDirectories place (name :: names) = (.error obstacle, t) := by
  rw [makeDirectories, h]

theorem makeDirectories_of_directory (h : t.step place name = .ok next) (hnext : t.IsDirectory next) :
    t.makeDirectories place (name :: names) = t.makeDirectories next names := by
  obtain ⟨entries, hentries⟩ := hnext
  have hat : t.at? next = some (.directory entries) := hentries
  rw [makeDirectories, h]
  dsimp only
  rw [hat]

theorem makeDirectories_of_none (h : t.step place name = .ok next) (hnext : t.at? next = none) :
    t.makeDirectories place (name :: names) =
      (t.put next (some (.directory []))).makeDirectories next names := by
  rw [makeDirectories, h]
  dsimp only
  rw [hnext]

theorem makeDirectories_of_other (h : t.step place name = .ok next) {node : Node}
    (hnext : t.at? next = some node) (hnot : ¬ t.IsDirectory next) :
    t.makeDirectories place (name :: names) = (.error .exists, t) := by
  rw [makeDirectories, h]
  dsimp only
  rw [hnext]
  cases node with
  | directory entries => exact absurd ⟨entries, hnext⟩ hnot
  | _ => rfl

end MakeDirectories

/-- Making directories leaves all that are there. -/
theorem within_makeDirectories (t : FileTree) (place names : List String) :
    t.Within (t.makeDirectories place names).2 := by
  induction names generalizing t place with
  | nil => exact .refl t
  | cons name names ih =>
    cases hstep : t.step place name with
    | error obstacle =>
      rw [makeDirectories_of_error hstep]
      exact .refl t
    | ok next =>
      by_cases hdirectory : t.IsDirectory next
      · rw [makeDirectories_of_directory hstep hdirectory]
        exact ih t next
      · cases hnext : t.at? next with
        | none =>
          rw [makeDirectories_of_none hstep hnext]
          exact (within_put _ hdirectory).trans (ih _ next)
        | some node =>
          rw [makeDirectories_of_other hstep hnext hdirectory]
          exact .refl t

/-- Directories that have been made are made once more without any change, also when there are more of
them by then; and what was in the way still is. -/
theorem makeDirectories_again {names : List String} {result : Except Obstacle Unit} {t' t'' : FileTree}
    (h : t.makeDirectories place names = (result, t')) (hwithin : t'.Within t'')
    (hresult : result = .ok () ∨ t'' = t') :
    t''.makeDirectories place names = (result, t'') := by
  induction names generalizing t place with
  | nil =>
    obtain ⟨rfl, -⟩ := Prod.mk.inj h
    rfl
  | cons name names ih =>
    have hstopped : ∀ obstacle, t.makeDirectories place (name :: names) = (.error obstacle, t) →
        t''.makeDirectories place (name :: names) = (result, t'') := by
      intro obstacle heq
      obtain ⟨rfl, rfl⟩ := Prod.mk.inj (heq.symm.trans h)
      obtain rfl := hresult.resolve_left (by simp)
      exact heq
    have hall : t.Within t'' := by
      have hmade := within_makeDirectories t place (name :: names)
      rw [h] at hmade
      exact hmade.trans hwithin
    cases hstep : t.step place name with
    | error obstacle => exact hstopped obstacle (makeDirectories_of_error hstep)
    | ok next =>
      obtain ⟨hplace, hlength, hnext⟩ := step_eq_ok_iff.mp hstep
      have hstep' : t''.step place name = .ok next :=
        step_eq_ok_iff.mpr ⟨hall.directories place hplace, hlength, hnext⟩
      by_cases hdirectory : t.IsDirectory next
      · rw [makeDirectories_of_directory hstep hdirectory] at h
        rw [makeDirectories_of_directory hstep' (hall.directories next hdirectory)]
        exact ih h
      · cases hat : t.at? next with
        | some node => exact hstopped .exists (makeDirectories_of_other hstep hat hdirectory)
        | none =>
          rw [makeDirectories_of_none hstep hat] at h
          obtain ⟨hne, above, habove⟩ := hnext ▸ parent_of_beside hplace (hnext ▸ hdirectory)
          have hmade : (t.put next (some (.directory []))).IsDirectory next :=
            ⟨[], at?_put_self t _ hne habove⟩
          have hlater : (t.put next (some (.directory []))).Within t'' := by
            have hrest := within_makeDirectories (t.put next (some (.directory []))) next names
            rw [h] at hrest
            exact hrest.trans hwithin
          rw [makeDirectories_of_directory hstep' (hlater.directories next hmade)]
          exact ih h

theorem within_makeParent (t : FileTree) (path : String) : t.Within (t.makeParent path).2 := by
  unfold makeParent
  split
  · exact .refl t
  · exact within_makeDirectories t _ _

theorem makeParent_again {path : String} {result : Except Obstacle Unit} {t' t'' : FileTree}
    (h : t.makeParent path = (result, t')) (hwithin : t'.Within t'')
    (hresult : result = .ok () ∨ t'' = t') : t''.makeParent path = (result, t'') := by
  have hall : t.Within t'' := by
    have hmade := within_makeParent t path
    rw [h] at hmade
    exact hmade.trans hwithin
  unfold makeParent at h ⊢
  cases hchecked : checked (Path.parent path) with
  | error obstacle =>
    rw [hchecked] at h
    obtain ⟨rfl, rfl⟩ := Prod.mk.inj h
    obtain rfl := hresult.resolve_left (by simp)
    rfl
  | ok u =>
    rw [hchecked] at h
    dsimp only at h ⊢
    rw [start_eq hall]
    exact makeDirectories_again h hwithin hresult

/-! ## Opening -/

/-- **`t.Opens path c t'`** — what opening a path can do. -/
inductive Opens (t : FileTree) (path : String) : File.Content → FileTree → Prop
  /-- The directories on the way cannot be made. -/
  | stopped (obstacle : Obstacle) (t' : FileTree)
      (parents : t.makeParent path = (.error obstacle, t')) :
    Opens t path (.blocked obstacle.message) t'
  /-- The path leads nowhere all the same. -/
  | astray (obstacle : Obstacle) (t' : FileTree) (parents : t.makeParent path = (.ok (), t'))
      (astray : t'.locate path = .error obstacle) :
    Opens t path (.blocked obstacle.message) t'
  /-- Something lies there. -/
  | found (t' : FileTree) (place : List String) (parents : t.makeParent path = (.ok (), t'))
      (located : t'.locate path = .ok place) (lies : contentOf (t'.at? place) ≠ .missing) :
    Opens t path (contentOf (t'.at? place)) t'
  /-- Nothing lies there, and an empty file is put there. -/
  | created (t' : FileTree) (place : List String) (parents : t.makeParent path = (.ok (), t'))
      (located : t'.locate path = .ok place) (missing : contentOf (t'.at? place) = .missing) :
    Opens t path (.present .empty) (t'.put place (some (.file .empty)))

theorem opened_cases (t : FileTree) (path : String) :
    t.Opens path (t.opened path).1 (t.opened path).2 := by
  unfold opened
  split
  · rename_i obstacle t' hparents
    exact .stopped obstacle t' hparents
  · rename_i t' hparents
    split
    · rename_i obstacle hastray
      exact .astray obstacle t' hparents hastray
    · rename_i place hlocated
      split
      · rename_i hmissing
        exact .created t' place hparents hlocated hmissing
      · rename_i hlies
        exact .found t' place hparents hlocated hlies

/-- What has been opened is there. -/
theorem opened_ne_missing (t : FileTree) (path : String) : (t.opened path).1 ≠ .missing := by
  have hopens := opened_cases t path
  generalize (t.opened path).1 = c, (t.opened path).2 = t₁ at hopens ⊢
  cases hopens with
  | stopped | astray | created => simp
  | found t' place parents located lies => exact lies

theorem opened_of_found {path : String} (hparents : t.makeParent path = (.ok (), t))
    (hlocated : t.locate path = .ok place) (hlies : contentOf (t.at? place) ≠ .missing) :
    t.opened path = (contentOf (t.at? place), t) := by
  unfold opened
  rw [hparents]
  dsimp only
  rw [hlocated]
  dsimp only
  split
  · rename_i hmissing
    exact absurd hmissing hlies
  · rfl

theorem not_isDirectory_of_missing (h : contentOf (t.at? place) = .missing) :
    ¬ t.IsDirectory place := by
  rintro ⟨entries, hentries⟩
  have hat : t.at? place = some (.directory entries) := hentries
  rw [hat] at h
  exact absurd h (by simp [contentOf])

/-- Opening a path once more changes nothing and finds the same. -/
theorem opened_opened (t : FileTree) (path : String) :
    (t.opened path).2.opened path = t.opened path := by
  have hopens := opened_cases t path
  generalize hwhole : t.opened path = whole at hopens
  obtain ⟨c, t₁⟩ := whole
  dsimp only at hopens ⊢
  cases hopens with
  | stopped obstacle t' parents =>
    have hagain := makeParent_again parents (.refl _) (.inr rfl)
    rw [opened, hagain]
  | astray obstacle t' parents astray =>
    have hagain := makeParent_again parents (.refl _) (.inl rfl)
    rw [opened, hagain]
    dsimp only
    rw [astray]
  | found t' place parents located lies =>
    exact opened_of_found (makeParent_again parents (.refl _) (.inl rfl)) located lies
  | created t' place parents located missing =>
    have hnot := not_isDirectory_of_missing missing
    have hwithin := within_put (.file .empty) hnot
    have hat := at?_put_of_locate located hnot (.file .empty)
    have hopened := opened_of_found (makeParent_again parents hwithin (.inl rfl))
      (locate_mono hwithin located) (by rw [hat]; simp [contentOf])
    rw [hopened, hat]
    rfl

/-! ## Files that are opened -/

/-- **`t.Holds path bytes`** — a file with these bytes lies under the path, and its directory can be
reached by making directories. -/
structure Holds (t : FileTree) (path : String) (bytes : ByteArray) : Prop where
  parents : t.makeParent path = (.ok (), t)
  file : ∃ place, t.locate path = .ok place ∧ t.at? place = some (.file bytes)

namespace Holds

variable {path : String} {bytes : ByteArray}

theorem read_eq (h : t.Holds path bytes) : t.read path = .present bytes := by
  obtain ⟨place, hlocated, hat⟩ := h.file
  rw [read, hlocated]
  dsimp only
  rw [hat]
  rfl

theorem opened_eq (h : t.Holds path bytes) : t.opened path = (.present bytes, t) := by
  obtain ⟨place, hlocated, hat⟩ := h.file
  have hopened := opened_of_found h.parents hlocated (by rw [hat]; simp [contentOf])
  rw [hopened, hat]
  rfl

/-- What is written into the file is in it. -/
theorem write (h : t.Holds path bytes) (bytes' : ByteArray) :
    (t.write path bytes').Holds path bytes' := by
  obtain ⟨place, hlocated, hat⟩ := h.file
  have hnot : ¬ t.IsDirectory place := by
    rintro ⟨entries, hentries⟩
    exact absurd (hat.symm.trans hentries) (by simp)
  have hwrite : t.write path bytes' = t.put place (some (.file bytes')) := by
    rw [FileTree.write, hlocated]
    dsimp only
    rw [hat]
  have hwithin := within_put (.file bytes') hnot
  rw [hwrite]
  refine ⟨makeParent_again h.parents hwithin (.inl rfl), place, locate_mono hwithin hlocated, ?_⟩
  exact at?_put_of_locate hlocated hnot (.file bytes')

end Holds

/-- If opening the path finds bytes, they are in a file, and reading the path finds them as well, or
nothing where the file is new.  This excludes a device, and a path such as `a/../b` while there is no
directory `a`: reading finds nothing then, and opening makes `a` and finds `b`. -/
def Leads (t : FileTree) (path : String) : Prop :=
  ∀ bytes, (t.opened path).1 = .present bytes →
    (t.read path).opened = .present bytes ∧
      ∃ place, (t.opened path).2.locate path = .ok place ∧
        (t.opened path).2.at? place = some (.file bytes)

namespace Leads

variable {path : String} {bytes : ByteArray}

theorem holds_opened (h : t.Leads path) (hopened : (t.opened path).1 = .present bytes) :
    (t.opened path).2.Holds path bytes := by
  refine ⟨?_, (h bytes hopened).2⟩
  have hopens := opened_cases t path
  generalize (t.opened path).1 = c, (t.opened path).2 = t₁ at hopens hopened ⊢
  cases hopens with
  | stopped | astray => exact absurd hopened (by simp)
  | found t' place parents located lies => exact makeParent_again parents (.refl _) (.inl rfl)
  | created t' place parents located missing =>
    exact makeParent_again parents (within_put _ (not_isDirectory_of_missing missing)) (.inl rfl)

end Leads

theorem Holds.leads {path : String} {bytes : ByteArray} (h : t.Holds path bytes) : t.Leads path := by
  intro bytes' hopened
  rw [h.opened_eq] at hopened ⊢
  obtain rfl := File.Content.present.inj hopened
  exact ⟨by rw [h.read_eq]; rfl, h.file⟩

/-- Once it has been opened, a path leads to the same file. -/
theorem Leads.opened {path : String} (h : t.Leads path) : (t.opened path).2.Leads path := by
  intro bytes hopened
  rw [opened_opened] at hopened
  exact (h.holds_opened hopened).leads bytes (by rw [(h.holds_opened hopened).opened_eq])

end AlertRules.FileTree
