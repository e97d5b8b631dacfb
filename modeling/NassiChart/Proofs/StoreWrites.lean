import NassiChart.Files.Store

/-! # What paths lead to after files were written

Writing a file changes what stands at one place, and makes or removes no directory.  So a path
leads to the same place before and after, and only the content of the file that it leads to may be
another one.  Making directories takes nothing away.
-/

namespace NassiChart.Files

theorem lookup_cons_eq {α β : Type} [BEq α] [LawfulBEq α] [DecidableEq α] (key other : α)
    (value : β) (entries : List (α × β)) : ((key, value) :: entries).lookup other =
      if other = key then some value else entries.lookup other := by
  by_cases same : other = key
  · rw [if_pos same, same, List.lookup_cons_self]
  · have test : (other == key) = false := beq_eq_false_iff_ne.mpr same
    rw [if_neg same, List.lookup_cons, test]

theorem lookup_replaced {α β : Type} [BEq α] [LawfulBEq α] [DecidableEq α]
    (entries : List (α × β)) (key other : α)
    (value : β) :
    (entries.map fun old => if old.1 = key then (key, value) else old).lookup other =
      if other = key then (entries.lookup key).map fun _ => value else entries.lookup other := by
  induction entries with
  | nil => simp
  | cons entry entries ih =>
      obtain ⟨first, old⟩ := entry
      by_cases here : first = key
      · subst here
        simp only [List.map_cons, if_true, lookup_cons_eq, ih]
        split <;> simp
      · simp only [List.map_cons, if_neg here, lookup_cons_eq, ih, if_neg (Ne.symm here)]
        by_cases same : other = first
        · simp [same, here]
        · simp [same]

namespace Store

variable {store s t u : Store} {place : Place} {path : Path}

theorem lookup_put (store : Store) (place other : Place) (entry : Entry) :
    (store.put place entry).entries.lookup other =
      if other = place then some entry else store.entries.lookup other := by
  unfold put
  split
  · rename_i taken
    obtain ⟨old, found⟩ := Option.isSome_iff_exists.mp taken
    simp only [lookup_replaced, found, Option.map_some]
  · rename_i free
    rw [Option.not_isSome_iff_eq_none] at free
    rw [List.lookup_append, lookup_cons_eq, List.lookup_nil]
    by_cases same : other = place
    · rw [same, free]
      simp
    · simp [same]

@[simp] theorem workplace_put (store : Store) (place : Place) (entry : Entry) :
    (store.put place entry).workplace = store.workplace := by
  unfold put
  split <;> rfl

/-- What is put somewhere is there, and everything else stays. -/
theorem entry?_put (store : Store) (filled : place ≠ []) (entry : Entry) (other : Place) :
    Store.entry? (store.put place entry) other =
      if other = place then some entry else store.entry? other := by
  unfold entry?
  rw [lookup_put]
  by_cases root : other = []
  · rw [if_pos root, if_pos root, if_neg (root ▸ filled.symm)]
  · rw [if_neg root, if_neg root]

/-- The target tells what stands at its place. -/
def Stands (store : Store) : Target → Prop
  | .directory _ => True
  | .file place content => place ≠ [] ∧ store.entry? place = some (.file content)
  | .vacant place => place ≠ [] ∧ store.entry? place = none

theorem stands_of_follow {start : Place} {names : List String} {target : Target}
    (found : store.follow start names = .ok target) : store.Stands target := by
  fun_induction follow store start names with
  | case1 place =>
      cases found
      trivial
  | case2 place names ih => exact ih found
  | case3 place names _ ih => exact ih found
  | case4 place name names _ _ next directory ih => exact ih found
  | case5 place name _ _ next content taken =>
      cases found
      exact ⟨List.append_ne_nil_of_right_ne_nil _ (List.cons_ne_nil _ _), taken⟩
  | case6 => cases found
  | case7 place name _ _ next free =>
      cases found
      exact ⟨List.append_ne_nil_of_right_ne_nil _ (List.cons_ne_nil _ _), free⟩
  | case8 => cases found

theorem read_eq_ok_iff {text : String} : store.read path = .ok text ↔ ∃ place content,
    store.follow (store.start path) (Path.names path) = .ok (.file place content) ∧
      Path.endsInSlash path = false ∧ decode content = .ok text := by
  unfold read resolve
  cases store.follow (store.start path) (Path.names path) with
  | error cause => exact ⟨nofun, nofun⟩
  | ok target =>
      cases target with
      | directory _ => exact ⟨nofun, nofun⟩
      | vacant _ => exact ⟨nofun, nofun⟩
      | file place content =>
          cases slash : Path.endsInSlash path with
          | true => exact ⟨nofun, nofun⟩
          | false =>
              refine ⟨fun found => ⟨place, content, rfl, rfl, found⟩, ?_⟩
              rintro ⟨_, _, same, -, found⟩
              cases same
              exact found

theorem writable_eq_ok_iff : store.writable path = .ok place ↔
    Path.endsInSlash path = false ∧
      (store.follow (store.start path) (Path.names path) = .ok (.vacant place) ∨
        ∃ content,
          store.follow (store.start path) (Path.names path) = .ok (.file place content)) := by
  unfold writable
  cases store.follow (store.start path) (Path.names path) with
  | error cause => simp [bind, Except.bind]
  | ok target =>
      cases target <;> cases slash : Path.endsInSlash path <;> simp [bind, Except.bind, eq_comm]

/-- In `t` stands what stands in `s`, or a file with a written content where `s` has no
directory. -/
structure Rewrites (written : List UInt8 → Prop) (s t : Store) : Prop where
  workplace : t.workplace = s.workplace
  entry (place : Place) : t.entry? place = s.entry? place ∨
    s.entry? place ≠ some .directory ∧
      ∃ content, written content ∧ t.entry? place = some (.file content)

/-- The same place, with a written content if it is not the same target. -/
inductive Becomes (written : List UInt8 → Prop) : Target → Target → Prop
  | same (target) : Becomes written target target
  | replaced {place old new} : written new → Becomes written (.file place old) (.file place new)
  | filled {place new} : written new → Becomes written (.vacant place) (.file place new)

namespace Rewrites

variable {written : List UInt8 → Prop}

theorem refl (store : Store) : Rewrites written store store :=
  ⟨rfl, fun _ => .inl rfl⟩

theorem trans (first : Rewrites written s t) (second : Rewrites written t u) :
    Rewrites written s u := by
  refine ⟨second.workplace.trans first.workplace, fun place => ?_⟩
  rcases second.entry place with same | ⟨free, new⟩
  · rw [same]
    exact first.entry place
  · rcases first.entry place with same | ⟨free, -⟩
    · exact .inr ⟨same ▸ free, new⟩
    · exact .inr ⟨free, new⟩

theorem put (filled : place ≠ []) (free : s.entry? place ≠ some .directory)
    {content : List UInt8} (new : written content) :
    Rewrites written s (s.put place (.file content)) := by
  refine ⟨workplace_put s place _, fun other => ?_⟩
  rw [entry?_put s filled]
  split
  · rename_i same
    exact .inr ⟨same ▸ free, content, new, rfl⟩
  · exact .inl rfl

/-- A path leads to the same place or nowhere, before and after. -/
theorem follow (rewrites : Rewrites written s t) (start : Place) (names : List String) :
    (∃ target target', s.follow start names = .ok target ∧ t.follow start names = .ok target' ∧
      Becomes written target target') ∨
    (∃ cause, s.follow start names = .error cause) ∧
      ∃ cause, t.follow start names = .error cause := by
  induction names generalizing start with
  | nil => exact .inl ⟨_, _, rfl, rfl, .same _⟩
  | cons name names ih =>
      rw [Store.follow, Store.follow]
      by_cases here : name = "."
      · rw [if_pos here, if_pos here]
        exact ih start
      by_cases up : name = ".."
      · rw [if_neg here, if_neg here, if_pos up, if_pos up]
        exact ih start.dropLast
      simp only [if_neg here, if_neg up]
      rcases rewrites.entry (start ++ [name]) with same | ⟨free, content, new, now⟩
      · rw [same]
        split
        · exact ih (start ++ [name])
        · split
          · exact .inl ⟨_, _, rfl, rfl, .same _⟩
          · exact .inr ⟨⟨_, rfl⟩, _, rfl⟩
        · split
          · exact .inl ⟨_, _, rfl, rfl, .same _⟩
          · exact .inr ⟨⟨_, rfl⟩, _, rfl⟩
      · rw [now]
        split
        · rename_i directory
          exact absurd directory free
        · split
          · exact .inl ⟨_, _, rfl, rfl, .replaced new⟩
          · exact .inr ⟨⟨_, rfl⟩, _, rfl⟩
        · split
          · exact .inl ⟨_, _, rfl, rfl, .filled new⟩
          · exact .inr ⟨⟨_, rfl⟩, _, rfl⟩

theorem start (rewrites : Rewrites written s t) (path : Path) : t.start path = s.start path := by
  rw [Store.start, Store.start, rewrites.workplace]

/-- A path that can be written leads to the same place before and after. -/
theorem writable_iff (rewrites : Rewrites written s t) (path : Path) (place : Place) :
    t.writable path = .ok place ↔ s.writable path = .ok place := by
  rw [writable_eq_ok_iff, writable_eq_ok_iff, rewrites.start]
  rcases rewrites.follow (s.start path) (Path.names path) with
    ⟨target, target', before, after, becomes⟩ | ⟨⟨_, before⟩, _, after⟩
  · rw [before, after]
    cases becomes <;> simp
  · rw [before, after]
    simp

/-- What is read was there before, or was written. -/
theorem read (rewrites : Rewrites written s t) {path : Path} {text : String}
    (found : t.read path = .ok text) :
    s.read path = .ok text ∨ ∃ content, written content ∧ decode content = .ok text := by
  obtain ⟨place, content, leads, slash, decoded⟩ := read_eq_ok_iff.mp found
  rw [rewrites.start] at leads
  rcases rewrites.follow (s.start path) (Path.names path) with
    ⟨target, target', before, after, becomes⟩ | ⟨-, _, after⟩
  · obtain rfl : target' = .file place content := Except.ok.inj (after.symm.trans leads)
    cases becomes with
    | same => exact .inl (read_eq_ok_iff.mpr ⟨place, content, before, slash, decoded⟩)
    | replaced new => exact .inr ⟨content, new, decoded⟩
    | filled new => exact .inr ⟨content, new, decoded⟩
  · cases after.symm.trans leads

end Rewrites

/-- A file that can be written stands in a directory, and is none. -/
theorem stands_of_writable (leads : s.writable path = .ok place) :
    place ≠ [] ∧ s.entry? place ≠ some .directory := by
  obtain ⟨-, vacant | ⟨content, file⟩⟩ := writable_eq_ok_iff.mp leads
  · obtain ⟨filled, free⟩ := stands_of_follow vacant
    exact ⟨filled, by rw [free]; nofun⟩
  · obtain ⟨filled, taken⟩ := stands_of_follow file
    exact ⟨filled, by rw [taken]; nofun⟩

theorem write_spec {text : String} (wrote : s.write path text = .ok t) :
    ∃ place, s.writable path = .ok place ∧ t = s.put place (.file (Text.bytes text)) := by
  unfold write at wrote
  cases leads : s.writable path with
  | error cause =>
      rw [leads] at wrote
      cases wrote
  | ok place =>
      rw [leads] at wrote
      exact ⟨place, rfl, (Except.ok.inj wrote).symm⟩

theorem writable_of_read {text : String} (found : s.read path = .ok text) :
    ∃ place content, s.writable path = .ok place ∧ s.entry? place = some (.file content) ∧
      decode content = .ok text := by
  obtain ⟨place, content, leads, slash, decoded⟩ := read_eq_ok_iff.mp found
  exact ⟨place, content, writable_eq_ok_iff.mpr ⟨slash, .inr ⟨content, leads⟩⟩,
    (stands_of_follow leads).2, decoded⟩

/-- A path leads to the file that stands at its place. -/
theorem resolve_of_writable {content : List UInt8} (leads : s.writable path = .ok place)
    (stands : s.entry? place = some (.file content)) :
    s.resolve path = .ok (.file place content) := by
  obtain ⟨slash, vacant | ⟨found, file⟩⟩ := writable_eq_ok_iff.mp leads
  · have free := (stands_of_follow vacant).2
    cases stands.symm.trans free
  · have taken := (stands_of_follow file).2
    cases stands.symm.trans taken
    rw [resolve, file]
    simp [slash, bind, Except.bind]

/-- Everything that stands in `s` stands in `t`. -/
structure Extends (s t : Store) : Prop where
  workplace : t.workplace = s.workplace
  entry {place : Place} {entry : Entry} : s.entry? place = some entry → t.entry? place = some entry

namespace Extends

theorem refl (store : Store) : Extends store store :=
  ⟨rfl, id⟩

theorem trans (first : Extends s t) (second : Extends t u) : Extends s u :=
  ⟨second.workplace.trans first.workplace, fun stands => second.entry (first.entry stands)⟩

theorem put (free : s.entry? place = none) (entry : Entry) : Extends s (s.put place entry) := by
  have filled : place ≠ [] := by
    rintro rfl
    cases free
  refine ⟨workplace_put s place entry, fun {other} _ stands => ?_⟩
  rw [entry?_put s filled, if_neg, stands]
  rintro rfl
  cases stands.symm.trans free

theorem follow (extend : Extends s t) {start : Place} {names : List String} {target : Target}
    (found : s.follow start names = .ok target) (there : ∀ place, target ≠ .vacant place) :
    t.follow start names = .ok target := by
  fun_induction Store.follow s start names with
  | case1 place => exact found
  | case2 place names ih =>
      rw [Store.follow, if_pos rfl]
      exact ih found
  | case3 place names here ih =>
      rw [Store.follow, if_neg here, if_pos rfl]
      exact ih found
  | case4 place name names here up next directory ih =>
      have next : t.entry? (place ++ [name]) = some .directory := extend.entry directory
      simp only [Store.follow, if_neg here, if_neg up, next]
      exact ih found
  | case5 place name here up next content file =>
      have next : t.entry? (place ++ [name]) = some (.file content) := extend.entry file
      simp only [Store.follow, if_neg here, if_neg up, next]
      exact found
  | case6 => cases found
  | case7 place =>
      cases found
      exact absurd rfl (there _)
  | case8 => cases found

/-- What can be read stays. -/
theorem read (extend : Extends s t) {path : Path} {text : String}
    (found : s.read path = .ok text) : t.read path = .ok text := by
  obtain ⟨place, content, leads, slash, decoded⟩ := read_eq_ok_iff.mp found
  refine read_eq_ok_iff.mpr ⟨place, content, ?_, slash, decoded⟩
  rw [start, extend.workplace]
  exact extend.follow leads nofun

end Extends

theorem extends_makeDirectory {start : Place} {names : List String}
    (made : s.makeDirectory start names = .ok t) : Extends s t := by
  unfold makeDirectory at made
  split at made
  · cases made
  · cases above : s.follow start names.dropLast with
    | error cause =>
        rw [above] at made
        cases made
    | ok target =>
        rw [above] at made
        cases target with
        | vacant _ => cases made
        | file _ _ => cases made
        | directory place =>
            change (if _ then _ else _) = _ at made
            split at made
            · cases made
            · split at made
              · cases made
              · rename_i free
                cases made
                exact .put free _

/-- What `makeDirectoriesFrom` does once the directories above are made, as `made` says. -/
def makeBelow (start : Place) (names : List String) (store : Store)
    (made : Except IoFailure Unit × Store) : Except IoFailure Unit × Store :=
  match store.makeDirectory start names with
  | .ok store => (.ok (), store)
  | .error .notFound =>
    match made.1 with
    | .error cause => (.error cause, made.2)
    | .ok () =>
      match made.2.makeDirectory start names with
      | .ok store => (.ok (), store)
      | .error cause =>
        if made.2.leadsToDirectory start names then (.ok (), made.2) else (.error cause, made.2)
  | .error cause =>
    if store.leadsToDirectory start names then (.ok (), store) else (.error cause, store)

-- The result of the recursive call is matched on, so no equations are made.  They hold by reduction.
theorem makeDirectoriesFrom_nil (start : Place) (names : List String) (store : Store) :
    makeDirectoriesFrom start [] names store = makeBelow start names store (.ok (), store) := by
  delta makeDirectoriesFrom
  rfl

theorem makeDirectoriesFrom_cons (start : Place) (next : List String) (rest : List (List String))
    (names : List String) (store : Store) :
    makeDirectoriesFrom start (next :: rest) names store =
      makeBelow start names store (makeDirectoriesFrom start rest next store) := by
  delta makeDirectoriesFrom
  rfl

theorem extends_makeBelow {start : Place} {names : List String} {store : Store}
    {made : Except IoFailure Unit × Store} (above : Extends store made.2) :
    Extends store (makeBelow start names store made).2 := by
  unfold makeBelow
  split
  · rename_i fresh
    exact extends_makeDirectory fresh
  · split
    · exact above
    · split
      · rename_i fresh
        exact above.trans (extends_makeDirectory fresh)
      · split <;> exact above
  · split <;> exact .refl store

theorem extends_makeDirectoriesFrom (start : Place) (above : List (List String))
    (names : List String) (store : Store) :
    Extends store (makeDirectoriesFrom start above names store).2 := by
  induction above generalizing names with
  | nil =>
      rw [makeDirectoriesFrom_nil]
      exact extends_makeBelow (.refl store)
  | cons next rest ih =>
      rw [makeDirectoriesFrom_cons]
      exact extends_makeBelow (ih next)

theorem extends_makeDirectories (store : Store) (path : Path) :
    Extends store (store.makeDirectories path).2 :=
  extends_makeDirectoriesFrom _ _ _ _

end Store

end NassiChart.Files
