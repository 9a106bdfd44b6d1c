import Kvist.FileSystem.Tree

/-!
# Laws of path resolution

A path is read from left to right, and the rest of it from the location that the front leads to.
Names of directories lead down whatever the bound on links is.
-/

set_option autoImplicit false

namespace Kvist.FileSystem.FileTree

variable {Name : Type} (tree : FileTree Name)

def followed : Nat → Location Name → List (PathStep Name) → Walked Name
  | 0 => fun _ _ => .refused .tooManyLinks
  | links + 1 => tree.walk links

theorem walk_eq (links : Nat) : tree.walk links = tree.walkSteps (tree.followed links) := by
  cases links <;> rfl

@[simp] theorem walk_nil (links : Nat) (location : Location Name) :
    tree.walk links location [] = .found location := by
  rw [walk_eq, walkSteps]

theorem walk_here {links : Nat} {location : Location Name} (rest : List (PathStep Name))
    (directory : tree.node location = some .directory) :
    tree.walk links location (.here :: rest) = tree.walk links location rest := by
  simp only [walk_eq, walkSteps, directory]

theorem walk_up {links : Nat} {location : Location Name} (rest : List (PathStep Name))
    (directory : tree.node location = some .directory) :
    tree.walk links location (.up :: rest) = tree.walk links location.dropLast rest := by
  simp only [walk_eq, walkSteps, directory]

theorem walk_down {links : Nat} {location : Location Name} (name : Name)
    (rest : List (PathStep Name)) (directory : tree.node location = some .directory) :
    tree.walk links location (.down name :: rest) =
      tree.lookup (tree.followed links) (fun child => tree.walk links child rest) location name
        rest := by
  simp only [walk_eq, walkSteps, directory]

/-! What a lookup does with each kind of entry. -/

section

variable {follow : Location Name → List (PathStep Name) → Walked Name}
variable {next : Location Name → Walked Name} {location : Location Name} {name : Name}
variable {rest : List (PathStep Name)}

theorem lookup_illegal (illegal : ¬tree.legal name = true) :
    tree.lookup follow next location name rest = .refused .invalidName := by
  rw [lookup, if_neg illegal]

theorem lookup_missing (legal : tree.legal name = true)
    (absent : tree.node (location ++ [name]) = none) :
    tree.lookup follow next location name rest = .missing location name rest := by
  rw [lookup, if_pos legal, absent]

theorem lookup_link {target : LinkTarget Name}
    (entry : tree.node (location ++ [name]) = some (.link target)) :
    tree.lookup follow next location name rest =
      follow (if target.absolute then [] else location) (target.steps ++ rest) := by
  have legal : tree.legal name = true := tree.named location name (by simp [entry])
  rw [lookup, if_pos legal, entry]

theorem lookup_other {kind : Node Name} (entry : tree.node (location ++ [name]) = some kind)
    (other : ∀ target, kind ≠ .link target) :
    tree.lookup follow next location name rest = next (location ++ [name]) := by
  have legal : tree.legal name = true := tree.named location name (by simp [entry])
  rw [lookup, if_pos legal, entry]
  cases kind with
  | link target => exact absurd rfl (other target)
  | directory => rfl
  | file content => rfl
  | special => rfl

end

theorem walk_cons_refused {links : Nat} {location : Location Name} (step : PathStep Name)
    (rest : List (PathStep Name)) (other : tree.node location ≠ some .directory) :
    tree.walk links location (step :: rest) = .refused .notDirectory := by
  rw [walk_eq]
  cases entry : tree.node location with
  | none => simp only [walkSteps, entry]
  | some kind =>
      cases kind with
      | directory => exact absurd entry other
      | file content => simp only [walkSteps, entry]
      | link target => simp only [walkSteps, entry]
      | special => simp only [walkSteps, entry]

theorem walk_down_directory {links : Nat} {location : Location Name} {name : Name}
    (rest : List (PathStep Name)) (child : tree.node (location ++ [name]) = some .directory) :
    tree.walk links location (.down name :: rest) =
      tree.walk links (location ++ [name]) rest := by
  have directory : tree.node location = some .directory :=
    tree.held location name (by simp [child])
  rw [tree.walk_down name rest directory, tree.lookup_other child fun target => nofun]

/-- The front of a path leads somewhere. What is at a link is taken from `atLink`. -/
private theorem walk_append_step {links : Nat}
    (atLink : ∀ {location reached : Location Name} {front : List (PathStep Name)},
      tree.followed links location front = .found reached → ∃ left ≤ links, ∀ back,
        tree.followed links location (front ++ back) = tree.walk left reached back)
    {location reached : Location Name} {front : List (PathStep Name)}
    (found : tree.walk links location front = .found reached) :
    ∃ left ≤ links, ∀ back,
      tree.walk links location (front ++ back) = tree.walk left reached back := by
  induction front generalizing location with
  | nil =>
      rw [walk_nil] at found
      cases found
      exact ⟨links, Nat.le_refl _, fun back => rfl⟩
  | cons step rest ih =>
      by_cases directory : tree.node location = some .directory
      · cases step with
        | here =>
            simp only [List.cons_append, tree.walk_here _ directory] at found ⊢
            exact ih found
        | up =>
            simp only [List.cons_append, tree.walk_up _ directory] at found ⊢
            exact ih found
        | down name =>
            simp only [List.cons_append, tree.walk_down name _ directory] at found ⊢
            by_cases legal : tree.legal name = true
            · cases child : tree.node (location ++ [name]) with
              | none =>
                  rw [tree.lookup_missing legal child] at found
                  cases found
              | some entry =>
                  by_cases isLink : ∃ target, entry = .link target
                  · obtain ⟨target, rfl⟩ := isLink
                    rw [tree.lookup_link child] at found
                    obtain ⟨left, fewer, same⟩ := atLink found
                    refine ⟨left, fewer, fun back => ?_⟩
                    rw [tree.lookup_link child, ← same back, List.append_assoc]
                  · have other := not_exists.mp isLink
                    rw [tree.lookup_other child other] at found
                    obtain ⟨left, fewer, same⟩ := ih found
                    refine ⟨left, fewer, fun back => ?_⟩
                    rw [tree.lookup_other child other, same]
            · rw [tree.lookup_illegal legal] at found
              cases found
      · rw [tree.walk_cons_refused step rest directory] at found
        cases found

/-- Once the front of a path leads somewhere, the back is read from there. -/
theorem walk_append_found {links : Nat} {location reached : Location Name}
    {front : List (PathStep Name)} (found : tree.walk links location front = .found reached) :
    ∃ left ≤ links, ∀ back,
      tree.walk links location (front ++ back) = tree.walk left reached back := by
  induction links generalizing location reached front with
  | zero =>
      apply tree.walk_append_step _ found
      intro location reached front refused
      cases refused
  | succ links ih =>
      apply tree.walk_append_step _ found
      intro location reached front found
      obtain ⟨left, fewer, same⟩ := ih found
      exact ⟨left, Nat.le_succ_of_le fewer, same⟩

/-! ## Trees that grow -/

/-- The later tree has every entry of the earlier one, of the same kind. A file may have other
bytes. -/
structure GrowsTo (tree later : FileTree Name) : Prop where
  legal : later.legal = tree.legal
  directory : ∀ location, tree.node location = some .directory →
    later.node location = some .directory
  link : ∀ location target, tree.node location = some (.link target) →
    later.node location = some (.link target)
  file : ∀ location content, tree.node location = some (.file content) →
    ∃ other, later.node location = some (.file other)
  special : ∀ location, tree.node location = some .special → later.node location = some .special

theorem GrowsTo.refl : GrowsTo tree tree :=
  ⟨rfl, fun _ same => same, fun _ _ same => same, fun _ content same => ⟨content, same⟩,
    fun _ same => same⟩

variable {tree} in
theorem GrowsTo.trans {later latest : FileTree Name} (first : tree.GrowsTo later)
    (second : later.GrowsTo latest) : tree.GrowsTo latest := by
  constructor
  · rw [second.legal, first.legal]
  · exact fun location entry => second.directory location (first.directory location entry)
  · exact fun location target entry =>
      second.link location target (first.link location target entry)
  · intro location content entry
    obtain ⟨other, present⟩ := first.file location content entry
    exact second.file location other present
  · exact fun location entry => second.special location (first.special location entry)

variable {tree} in
theorem GrowsTo.other {later : FileTree Name} (grows : tree.GrowsTo later) {location : Location Name}
    {kind : Node Name} (entry : tree.node location = some kind)
    (other : ∀ target, kind ≠ .link target) :
    ∃ kind, later.node location = some kind ∧ ∀ target, kind ≠ .link target := by
  cases kind with
  | directory => exact ⟨_, grows.directory _ entry, fun target => nofun⟩
  | file content =>
      obtain ⟨bytes, present⟩ := grows.file _ _ entry
      exact ⟨_, present, fun target => nofun⟩
  | link target => exact absurd rfl (other target)
  | special => exact ⟨_, grows.special _ entry, fun target => nofun⟩

variable {tree} in
private theorem walk_grows_step {later : FileTree Name} (grows : tree.GrowsTo later) {links : Nat}
    (atLink : ∀ {location reached : Location Name} {path : List (PathStep Name)},
      tree.followed links location path = .found reached →
        later.followed links location path = .found reached)
    {location reached : Location Name} {path : List (PathStep Name)}
    (found : tree.walk links location path = .found reached) :
    later.walk links location path = .found reached := by
  induction path generalizing location with
  | nil =>
      rw [walk_nil] at found ⊢
      exact found
  | cons step rest ih =>
      by_cases directory : tree.node location = some .directory
      · have kept := grows.directory location directory
        cases step with
        | here =>
            rw [tree.walk_here _ directory] at found
            rw [later.walk_here _ kept]
            exact ih found
        | up =>
            rw [tree.walk_up _ directory] at found
            rw [later.walk_up _ kept]
            exact ih found
        | down name =>
            rw [tree.walk_down name _ directory] at found
            rw [later.walk_down name _ kept]
            by_cases legal : tree.legal name = true
            · cases child : tree.node (location ++ [name]) with
              | none =>
                  rw [tree.lookup_missing legal child] at found
                  cases found
              | some entry =>
                  by_cases isLink : ∃ target, entry = .link target
                  · obtain ⟨target, rfl⟩ := isLink
                    rw [tree.lookup_link child] at found
                    rw [later.lookup_link (grows.link _ _ child)]
                    exact atLink found
                  · have other := not_exists.mp isLink
                    obtain ⟨kind, present, noLink⟩ := grows.other child other
                    rw [tree.lookup_other child other] at found
                    rw [later.lookup_other present noLink]
                    exact ih found
            · rw [tree.lookup_illegal legal] at found
              cases found
      · rw [tree.walk_cons_refused step rest directory] at found
        cases found

variable {tree} in
/-- A path that leads somewhere leads there in the later tree too. -/
theorem GrowsTo.walk {later : FileTree Name} (grows : tree.GrowsTo later) {links : Nat}
    {location reached : Location Name} {path : List (PathStep Name)}
    (found : tree.walk links location path = .found reached) :
    later.walk links location path = .found reached := by
  induction links generalizing location reached path with
  | zero =>
      apply walk_grows_step grows _ found
      intro location reached path refused
      cases refused
  | succ links ih =>
      apply walk_grows_step grows _ found
      intro location reached path found
      exact ih found

theorem openDirectory_eq_ok_iff {path : List (PathStep Name)} {location : Location Name} :
    tree.openDirectory path = .ok location ↔
      tree.resolve path = .found location ∧ tree.node location = some .directory := by
  rw [openDirectory]
  constructor
  · intro opened
    split at opened
    · rename_i reached resolved
      split at opened
      · rename_i directory
        cases opened
        refine ⟨resolved, ?_⟩
        cases entry : tree.node location with
        | none =>
            rw [entry] at directory
            cases directory
        | some kind =>
            rw [entry] at directory
            cases kind <;> first | rfl | cases directory
      · cases opened
    · cases opened
    · cases opened
  · intro both
    obtain ⟨resolved, directory⟩ := both
    rw [resolved]
    simp only [directory, if_true]

theorem lstat_eq_ok_iff {path : List (PathStep Name)} {name : Name} {entry : Node Name} :
    tree.lstat path name = .ok entry ↔
      ∃ location, tree.openDirectory path = .ok location ∧
        tree.node (location ++ [name]) = some entry := by
  rw [lstat]
  cases opened : tree.openDirectory path with
  | error error =>
      constructor
      · intro found
        cases found
      · intro found
        obtain ⟨location, same, -⟩ := found
        cases same
  | ok location =>
      change (if tree.legal name = true then _ else _) = _ ↔ _
      constructor
      · intro found
        split at found
        · split at found
          · rename_i child present
            cases found
            exact ⟨location, rfl, present⟩
          · cases found
        · cases found
      · intro found
        obtain ⟨other, same, present⟩ := found
        cases same
        have legal : tree.legal name = true := tree.named location name (by simp [present])
        rw [if_pos legal, present]
        rfl

@[simp] theorem lstatPath_down (path : List (PathStep Name)) (name : Name) :
    tree.lstatPath (path ++ [.down name]) = tree.lstat path name := by
  rw [lstatPath, List.getLast?_concat, List.dropLast_concat]

/-- One more directory below the one that a path leads to. -/
theorem openDirectory_down {path : List (PathStep Name)} {location : Location Name} {name : Name}
    (opened : tree.openDirectory path = .ok location)
    (child : tree.node (location ++ [name]) = some .directory) :
    tree.openDirectory (path ++ [.down name]) = .ok (location ++ [name]) := by
  obtain ⟨resolved, -⟩ := tree.openDirectory_eq_ok_iff.mp opened
  obtain ⟨left, -, same⟩ := tree.walk_append_found resolved
  apply tree.openDirectory_eq_ok_iff.mpr
  refine ⟨?_, child⟩
  rw [resolve, same, tree.walk_down_directory [] child, walk_nil]

/-- A regular file that the path does not reach through a link is the one that is read. -/
theorem read_down {path : List (PathStep Name)} {location : Location Name} {name : Name}
    {content : List UInt8} (opened : tree.openDirectory path = .ok location)
    (child : tree.node (location ++ [name]) = some (.file content)) :
    tree.read (path ++ [.down name]) = .ok content := by
  obtain ⟨resolved, directory⟩ := tree.openDirectory_eq_ok_iff.mp opened
  obtain ⟨left, -, same⟩ := tree.walk_append_found resolved
  have reached : tree.resolve (path ++ [.down name]) = .found (location ++ [name]) := by
    rw [resolve, same, tree.walk_down _ _ directory, tree.lookup_other child fun target => nofun,
      walk_nil]
  rw [read, reached]
  simp only [child]

variable {tree} in
theorem GrowsTo.openDirectory {later : FileTree Name} (grows : tree.GrowsTo later)
    {path : List (PathStep Name)} {location : Location Name}
    (opened : tree.openDirectory path = .ok location) :
    later.openDirectory path = .ok location := by
  obtain ⟨resolved, directory⟩ := tree.openDirectory_eq_ok_iff.mp opened
  exact later.openDirectory_eq_ok_iff.mpr
    ⟨grows.walk resolved, grows.directory location directory⟩

section

variable [DecidableEq Name]

theorem growsTo_put {directory : Location Name} {name : Name} {entry : Node Name}
    {isDirectory : tree.node directory = some .directory} {legal : tree.legal name = true}
    {leaf : tree.node (directory ++ [name]) ≠ some .directory}
    (place : tree.node (directory ++ [name]) = none ∨
      (∃ old, tree.node (directory ++ [name]) = some (.file old)) ∧ ∃ new, entry = .file new) :
    tree.GrowsTo (tree.put directory name entry isDirectory legal leaf) := by
  have apart : ∀ {location : Location Name} {kind : Node Name},
      tree.node location = some kind → (∀ content, kind ≠ .file content) →
        location ≠ directory ++ [name] := by
    intro location kind present noFile same
    rw [same] at present
    rcases place with vacant | ⟨⟨old, occupied⟩, -⟩
    · rw [vacant] at present
      cases present
    · rw [occupied] at present
      exact noFile old (Option.some.inj present).symm
  constructor
  · rfl
  · intro location present
    rw [node_put, if_neg (apart present fun content => nofun), present]
  · intro location target present
    rw [node_put, if_neg (apart present fun content => nofun), present]
  · intro location content present
    rw [node_put]
    by_cases same : location = directory ++ [name]
    · rw [if_pos same]
      rw [same] at present
      rcases place with vacant | ⟨-, new, rfl⟩
      · rw [vacant] at present
        cases present
      · exact ⟨new, rfl⟩
    · rw [if_neg same, present]
      exact ⟨content, rfl⟩
  · intro location present
    rw [node_put, if_neg (apart present fun content => nofun), present]

variable {tree} in
/-- An entry that the earlier tree does not have may go again. -/
theorem GrowsTo.erase {later : FileTree Name} (grows : tree.GrowsTo later)
    {directory : Location Name} {name : Name}
    {leaf : later.node (directory ++ [name]) ≠ some .directory}
    (absent : tree.node (directory ++ [name]) = none) :
    tree.GrowsTo (later.erase directory name leaf) := by
  have apart : ∀ {location : Location Name} {kind : Node Name},
      tree.node location = some kind → location ≠ directory ++ [name] := by
    intro location kind present same
    rw [same, absent] at present
    cases present
  constructor
  · exact grows.legal
  · intro location present
    rw [node_erase, if_neg (apart present)]
    exact grows.directory location present
  · intro location target present
    rw [node_erase, if_neg (apart present)]
    exact grows.link location target present
  · intro location content present
    rw [node_erase, if_neg (apart present)]
    exact grows.file location content present
  · intro location present
    rw [node_erase, if_neg (apart present)]
    exact grows.special location present

/-- What a successful write or creation has done. -/
theorem putEntry_eq_ok_iff {path : List (PathStep Name)} {name : Name} {entry : Node Name}
    {fresh : Bool} {after : FileTree Name} :
    tree.putEntry path name entry fresh = .ok after ↔
      ∃ directory, tree.openDirectory path = .ok directory ∧
        ∃ (isDirectory : tree.node directory = some .directory)
          (legal : tree.legal name = true)
          (leaf : tree.node (directory ++ [name]) ≠ some .directory),
          (fresh = true → tree.node (directory ++ [name]) = none) ∧
            after = tree.put directory name entry isDirectory legal leaf := by
  rw [putEntry]
  constructor
  · intro written
    split at written
    · cases written
    · rename_i directory opened
      split at written
      · rename_i isDirectory
        split at written
        · rename_i legal
          split at written
          · rename_i leaf
            split at written
            · cases written
            · rename_i vacant
              cases written
              refine ⟨directory, opened, isDirectory, legal, leaf, fun isFresh => ?_, rfl⟩
              simpa [isFresh] using vacant
          · cases written
        · cases written
      · cases written
  · intro facts
    obtain ⟨directory, opened, isDirectory, legal, leaf, vacant, rfl⟩ := facts
    simp only [opened, dif_pos isDirectory, dif_pos legal, dif_pos leaf]
    rw [if_neg]
    intro both
    obtain ⟨isFresh, occupied⟩ := Bool.and_eq_true_iff.mp both
    rw [vacant isFresh] at occupied
    cases occupied

end

end Kvist.FileSystem.FileTree
