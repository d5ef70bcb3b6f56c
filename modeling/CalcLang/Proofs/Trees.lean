import CalcLang.Files.Tree
import CalcLang.Proofs.Paths
import Mathlib.Data.List.Nodup

/-!
# Well-formed file trees

In a well-formed tree every entry lies in a directory under a proper name, and no place has two
entries (`FileTree.WellFormed`). In such a tree a path to a file ends in the name of the file
(`find_file`), and a path joined to a directory leads on from there (`locate_join`).

What a path leads to depends on the entries that are passed on the way. Trees that agree on these
(`FileTree.AgreeAlong`) give the same answers about the path, and refuse or take the same output
there (`AgreeAlong.write`).
-/

namespace CalcLang

namespace FileTree

variable {t : FileTree} {place other : Place} {entry : Entry} {p q : Path} {name : String}
  {content : Content}

/-! ## Entries -/

/-- A file system: the entries have places of their own, which lie in directories. -/
structure WellFormed (t : FileTree) : Prop where
  nodup : (t.entries.map Prod.fst).Nodup
  exists_name : ∀ e ∈ t.entries, ∃ home name, e.1 = home ++ [name] ∧ IsEntryName name ∧
    t.entry? home = some .directory
  working : t.entry? t.workingDirectory = some .directory

theorem entry?_concat (t : FileTree) (home : Place) (name : String) :
    t.entry? (home ++ [name]) = t.entries.lookup (home ++ [name]) := if_neg (by simp)

theorem mem_of_lookup {entries : List (Place × Entry)} (h : entries.lookup place = some entry) :
    (place, entry) ∈ entries := by
  obtain ⟨before, behind, rfl, -⟩ := List.lookup_eq_some_iff.1 h
  exact List.mem_append_right _ List.mem_cons_self

theorem lookup_of_mem {entries : List (Place × Entry)} (hnodup : (entries.map Prod.fst).Nodup)
    (h : (place, entry) ∈ entries) : entries.lookup place = some entry := by
  obtain ⟨before, behind, rfl⟩ := List.append_of_mem h
  refine List.lookup_eq_some_iff.2 ⟨before, behind, rfl, fun e he => ?_⟩
  rw [List.map_append, List.map_cons] at hnodup
  have hne := (List.nodup_append.1 hnodup).2.2 _ (List.mem_map_of_mem he) _ List.mem_cons_self
  exact bne_iff_ne.2 (Ne.symm hne)

theorem entry?_put (hplace : place ≠ []) (t : FileTree) (entry : Entry) (other : Place) :
    FileTree.entry? (t.put place entry) other =
      if other = place then some entry else t.entry? other := by
  split_ifs with hne
  · subst hne
    rw [FileTree.entry?, if_neg (by simpa using hplace), put, Assoc.lookup_put_self]
  · have hlookup : (t.put place entry).entries.lookup other = t.entries.lookup other :=
      Assoc.lookup_put_of_ne _ hne _
    rw [FileTree.entry?, FileTree.entry?, hlookup]

theorem put_ne_self (hplace : place ≠ []) (hfree : t.entry? place = none) (entry : Entry) :
    t.put place entry ≠ t := fun h => by
  have hput := entry?_put hplace t entry place
  rw [h, hfree, if_pos rfl] at hput
  cases hput

namespace WellFormed

/-- What has an entry is the root or lies in a directory under a proper name. -/
theorem of_entry? (ht : t.WellFormed) (h : t.entry? place = some entry) (hplace : place ≠ []) :
    ∃ home name, place = home ++ [name] ∧ IsEntryName name ∧ t.entry? home = some .directory := by
  rw [FileTree.entry?, if_neg (by simpa using hplace)] at h
  exact ht.exists_name _ (mem_of_lookup h)

theorem entry?_dropLast (ht : t.WellFormed) (h : t.entry? place = some entry) :
    t.entry? place.dropLast = some .directory := by
  by_cases hplace : place = []
  · subst hplace
    rfl
  · obtain ⟨home, name, rfl, -, hhome⟩ := ht.of_entry? h hplace
    rwa [List.dropLast_concat]

end WellFormed

/-! ## Names in a directory -/

/-- The name of an entry in the directory at a place, given the place of the entry. -/
def nameIn? (home place : Place) : Option String :=
  match place.getLast? with
  | some name => if place.dropLast = home then some name else none
  | none => none

theorem nameIn?_eq_some_iff {home : Place} :
    nameIn? home place = some name ↔ place = home ++ [name] := by
  rw [nameIn?]
  rcases List.eq_nil_or_concat' place with rfl | ⟨before, last, rfl⟩
  · simp
  · rw [List.getLast?_concat, List.dropLast_concat]
    constructor
    · intro h
      split_ifs at h with hbefore
      rw [hbefore, Option.some.inj h]
    · intro h
      obtain ⟨rfl, hlast⟩ := List.append_inj' h rfl
      rw [List.singleton_inj.1 hlast]
      exact if_pos rfl

theorem names_eq (t : FileTree) (place : Place) :
    t.names place = (t.entries.map Prod.fst).filterMap (nameIn? place) := by
  rw [List.filterMap_map]
  rfl

theorem mem_names_iff : name ∈ t.names place ↔ ∃ entry, (place ++ [name], entry) ∈ t.entries := by
  rw [names_eq, List.mem_filterMap]
  constructor
  · rintro ⟨other, hother, hname⟩
    obtain ⟨e, he, rfl⟩ := List.mem_map.1 hother
    exact ⟨e.2, nameIn?_eq_some_iff.1 hname ▸ he⟩
  · rintro ⟨entry, hentry⟩
    exact ⟨_, List.mem_map_of_mem hentry, nameIn?_eq_some_iff.2 rfl⟩

namespace WellFormed

theorem mem_names_iff (ht : t.WellFormed) :
    name ∈ t.names place ↔ ∃ entry, t.entry? (place ++ [name]) = some entry := by
  rw [FileTree.mem_names_iff]
  simp only [entry?_concat]
  exact exists_congr fun entry => ⟨lookup_of_mem ht.nodup, mem_of_lookup⟩

theorem nodup_names (ht : t.WellFormed) (place : Place) : (t.names place).Nodup := by
  rw [names_eq]
  refine ht.nodup.filterMap fun first second name hfirst hsecond => ?_
  rw [nameIn?_eq_some_iff.1 hfirst, nameIn?_eq_some_iff.1 hsecond]

theorem isEntryName (ht : t.WellFormed) (h : t.entry? (place ++ [name]) = some entry) :
    IsEntryName name := by
  obtain ⟨home, name', heq, hname, -⟩ := ht.of_entry? h (by simp)
  rwa [List.singleton_inj.1 (List.append_inj' heq rfl).2]

end WellFormed

/-! ## Following components -/

theorem follow_append (t : FileTree) (place : Place) (names more : List String) :
    t.follow place (names ++ more) =
      (t.follow place names).bind fun reached => t.follow reached more := by
  induction names generalizing place with
  | nil => rfl
  | cons name names ih =>
    simp only [List.cons_append, follow]
    split
    · rfl
    · rfl
    · split_ifs <;> exact ih _

theorem follow_singleton (hplace : t.entry? place = some .directory) (hname : IsEntryName name) :
    t.follow place [name] = .ok (place ++ [name]) := by
  simp [follow, hplace, hname.ne_empty, hname.ne_dot, hname.ne_dots]

/-- One component leads from a directory to an entry, to the directory or to the one around it. -/
theorem follow_singleton_inv {reached : Place} (h : t.follow place [name] = .ok reached) :
    t.entry? place = some .directory ∧
      (reached = place ++ [name] ∧ name ≠ "" ∧ name ≠ "." ∧ name ≠ ".." ∨ reached = place ∨
        reached = place.dropLast) := by
  simp only [follow] at h
  split at h
  · cases h
  · cases h
  · next hplace =>
    refine ⟨hplace, ?_⟩
    split_ifs at h with hdot hdots
    · exact .inr (.inl (Except.ok.inj h).symm)
    · exact .inr (.inr (Except.ok.inj h).symm)
    · rw [not_or] at hdot
      exact .inl ⟨(Except.ok.inj h).symm, hdot.1, hdot.2, hdots⟩

theorem bind_eq_ok {α β : Type} {x : Except OsFault α} {f : α → Except OsFault β} {b : β}
    (h : x.bind f = .ok b) : ∃ a, x = .ok a ∧ f a = .ok b := by
  cases x with
  | error => cases h
  | ok a => exact ⟨a, rfl, h⟩

/-! ## Paths to files and into directories -/

theorem find_eq_ok_iff : t.find p = .ok (place, entry) ↔
    t.locate p = .ok place ∧ t.entry? place = some entry := by
  rw [find]
  constructor
  · intro h
    split at h
    · cases h
    · next hlocate =>
      split at h
      · next hentry =>
        cases h
        exact ⟨hlocate, hentry⟩
      · cases h
  · rintro ⟨hlocate, hentry⟩
    rw [hlocate]
    dsimp only
    rw [hentry]

theorem read_eq_ok_iff {text : String} :
    t.read p = .ok text ↔ ∃ place, t.find p = .ok (place, .file (.text text)) := by
  rw [read]
  cases t.find p with
  | error fault => simp
  | ok found =>
    obtain ⟨place, (_ | _) | _⟩ := found <;> simp

theorem text_ne_empty (h : t.locate p = .ok place) : p.text ≠ "" := fun hp => by
  simp [locate, hp] at h

theorem locate_eq (hp : p.text ≠ "") : t.locate p = t.follow (t.start p) p.components :=
  if_neg (by simpa using hp)

/-- A path to a file ends in the name of the file. -/
theorem WellFormed.find_file (ht : t.WellFormed) (h : t.find p = .ok (place, .file content)) :
    ∃ before home name, p.components = before ++ [name] ∧ IsEntryName name ∧
      t.follow (t.start p) before = .ok home ∧ t.entry? home = some .directory ∧
      place = home ++ [name] := by
  obtain ⟨hlocate, hentry⟩ := find_eq_ok_iff.1 h
  rw [locate_eq (text_ne_empty hlocate)] at hlocate
  obtain ⟨before, name, hcomponents⟩ := p.exists_components
  rw [hcomponents, follow_append] at hlocate
  obtain ⟨home, hhome, hname⟩ := bind_eq_ok hlocate
  obtain ⟨hdirectory, ⟨rfl, hempty, hdot, hdots⟩ | rfl | rfl⟩ := follow_singleton_inv hname
  · have hslash : '/' ∉ name.toList :=
      Path.slash_notMem_of_mem_components (hcomponents ▸ List.mem_append_right _ List.mem_cons_self)
    exact ⟨before, home, name, hcomponents, ⟨hempty, hdot, hdots, hslash⟩, hhome, hdirectory, rfl⟩
  · rw [hdirectory] at hentry
    cases hentry
  · rw [ht.entry?_dropLast hdirectory] at hentry
    cases hentry

/-- A path joined to that of a directory leads on from there. -/
theorem locate_join {d : Place} (h : t.find p = .ok (d, .directory)) (hq : q.text ≠ "") :
    t.locate (p.join q) = t.follow (if q.isAbsolute then [] else d) q.components := by
  obtain ⟨hlocate, hd⟩ := find_eq_ok_iff.1 h
  have hp := text_ne_empty hlocate
  rw [locate_eq hp] at hlocate
  rw [locate_eq (Path.text_join_ne_empty p hq)]
  cases habsolute : q.isAbsolute with
  | true =>
    rw [Path.join_of_isAbsolute habsolute, start, habsolute]
    rfl
  | false =>
    have hstart : t.start (p.join q) = t.start p := by
      rw [start, start, Path.isAbsolute_join hp habsolute]
    rw [hstart]
    rcases Path.components_join hp habsolute with hcomponents | ⟨before, hbefore, hcomponents⟩
    · rw [hcomponents, follow_append, hlocate]
      rfl
    -- The empty component behind the slash of the directory leads nowhere else.
    · rw [hbefore, follow_append] at hlocate
      obtain ⟨reached, hreached, hempty⟩ := bind_eq_ok hlocate
      have hreached' : t.follow reached [""] = .ok reached := by
        obtain ⟨hdirectory, -⟩ := follow_singleton_inv hempty
        simp [follow, hdirectory]
      rw [hreached'] at hempty
      obtain rfl := Except.ok.inj hempty
      rw [hcomponents, follow_append, hreached]
      rfl

/-- A name joined to the path of a directory leads to the entry of that name. -/
theorem locate_join_name {d : Place} (h : t.find p = .ok (d, .directory))
    (hname : IsEntryName name) : t.locate (p.join ⟨name⟩) = .ok (d ++ [name]) := by
  rw [locate_join h hname.ne_empty, hname.isAbsolute, Path.components_of_notMem hname.slash]
  exact follow_singleton (find_eq_ok_iff.1 h).2 hname

theorem find_join_name {d : Place} (h : t.find p = .ok (d, .directory))
    (hname : IsEntryName name) : t.find (p.join ⟨name⟩) =
      ((t.entry? (d ++ [name])).elim (.error .notFound) fun entry => .ok (d ++ [name], entry)) := by
  rw [find, locate_join_name h hname]
  dsimp only
  cases t.entry? (d ++ [name]) <;> rfl

/-! ## Writing files -/

/-- What becomes a file is where a path leads that ends in a proper name. -/
theorem locateFile_eq {before : List String} (hcomponents : p.components = before ++ [name])
    (hname : IsEntryName name) : t.locateFile p = t.locate p := by
  have hlast : p.components.getLast? ≠ some "" := by
    rw [hcomponents, List.getLast?_concat]
    exact fun heq => hname.ne_empty (Option.some.inj heq)
  rw [locateFile, if_neg hlast, locate]
  split_ifs <;> rfl

theorem locateFile_eq_follow {before : List String} (hcomponents : p.components = before ++ [name])
    (hname : IsEntryName name) : t.locateFile p = t.follow (t.start p) (before ++ [name]) := by
  have hp : p.text ≠ "" := fun hp => by
    rw [Path.components, hp] at hcomponents
    have hsingle : [""] = before ++ [name] := hcomponents
    obtain ⟨-, hlast⟩ := (List.singleton_eq_append_iff.1 hsingle).resolve_right (by simp)
    exact hname.ne_empty (List.singleton_inj.1 hlast)
  rw [locateFile_eq hcomponents hname, locate_eq hp, hcomponents]

theorem write_eq_ok_iff {text : String} {after : FileTree} : t.write p text = .ok after ↔
    ∃ place, t.locateFile p = .ok place ∧ t.entry? place ≠ some .directory ∧
      after = t.put place (.file (.text text)) := by
  rw [write]
  cases t.locateFile p with
  | error fault => simp
  | ok place =>
    dsimp only
    split
    · next hentry => simp [hentry]
    · next hentry =>
      refine ⟨fun h => ⟨place, rfl, hentry, (Except.ok.inj h).symm⟩, ?_⟩
      rintro ⟨_, hplace, -, rfl⟩
      rw [Except.ok.inj hplace]

/-- An entry that is put into a directory under a proper name leaves the tree well-formed, unless a
directory was there. -/
theorem WellFormed.put (ht : t.WellFormed) {home : Place}
    (hhome : t.entry? home = some .directory) (hname : IsEntryName name)
    (hfree : t.entry? (home ++ [name]) ≠ some .directory) (entry : Entry) :
    (t.put (home ++ [name]) entry).WellFormed := by
  have hdirectory {place : Place} (h : t.entry? place = some .directory) :
      FileTree.entry? (t.put (home ++ [name]) entry) place = some .directory := by
    rw [entry?_put (by simp), if_neg, h]
    rintro rfl
    exact hfree h
  refine ⟨?_, fun e he => ?_, hdirectory ht.working⟩
  · refine List.nodup_cons.2 ⟨fun hmem => ?_, (List.filter_sublist.map _).nodup ht.nodup⟩
    obtain ⟨e, he, hplace⟩ := List.mem_map.1 hmem
    simp [hplace] at he
  · rcases List.mem_cons.1 he with rfl | he
    · exact ⟨home, name, rfl, hname, hdirectory hhome⟩
    · obtain ⟨home', name', hplace, hname', hhome'⟩ := ht.exists_name e (List.mem_filter.1 he).1
      exact ⟨home', name', hplace, hname', hdirectory hhome'⟩

/-- One tree is another in which a text has been written at a place, and nothing else changed. -/
structure WritesOnly (t after : FileTree) (place : Place) : Prop where
  written : ∃ text, after.entry? place = some (.file (.text text))
  others : ∀ other, other ≠ place → after.entry? other = t.entry? other
  free : t.entry? place ≠ some .directory
  working : after.workingDirectory = t.workingDirectory
  wellFormed : after.WellFormed

/-- Writing at a path that ends in a proper name writes under that name in the directory to which
the components before it lead. -/
theorem WellFormed.writesOnly (ht : t.WellFormed) {text : String} {after : FileTree}
    (hwrite : t.write p text = .ok after) {start : Place} {before : List String}
    (hlocate : t.locateFile p = t.follow start (before ++ [name])) (hname : IsEntryName name) :
    ∃ home, t.follow start before = .ok home ∧ t.WritesOnly after (home ++ [name]) := by
  obtain ⟨place, hplace, hfree, rfl⟩ := write_eq_ok_iff.1 hwrite
  rw [hlocate, follow_append] at hplace
  obtain ⟨home, hhome, hlast⟩ := bind_eq_ok hplace
  have hdirectory := (follow_singleton_inv hlast).1
  rw [follow_singleton hdirectory hname] at hlast
  obtain rfl := Except.ok.inj hlast
  refine ⟨home, hhome, ⟨text, ?_⟩, fun other hother => ?_, hfree, rfl,
    ht.put hdirectory hname hfree _⟩
  · rw [entry?_put (by simp), if_pos rfl]
  · rw [entry?_put (by simp), if_neg hother]

/-! ## Trees that agree -/

section Agreement

variable {t' : FileTree} {reached : Place} {names : List String}

theorem entry?_perm (hnodup : (t.entries.map Prod.fst).Nodup) (hperm : t'.entries.Perm t.entries)
    (place : Place) : t'.entry? place = t.entry? place := by
  have hlookup : t'.entries.lookup place = t.entries.lookup place := by
    refine Option.ext fun entry => ⟨fun h => ?_, fun h => ?_⟩
    · exact lookup_of_mem hnodup (hperm.mem_iff.1 (mem_of_lookup h))
    · exact lookup_of_mem ((hperm.map _).nodup_iff.2 hnodup)
        (hperm.mem_iff.2 (mem_of_lookup h))
  rw [FileTree.entry?, FileTree.entry?, hlookup]

/-- The places that are looked at when components are followed, and the place they lead to. -/
def passed (t : FileTree) (place : Place) : List String → List Place
  | [] => [place]
  | name :: names =>
    place ::
      match t.follow place [name] with
      | .ok next => t.passed next names
      | .error _ => []

theorem follow_cons (t : FileTree) (place : Place) (name : String) (names : List String) :
    t.follow place (name :: names) =
      (t.follow place [name]).bind fun next => t.follow next names :=
  t.follow_append place [name] names

theorem mem_passed (h : t.follow place names = .ok reached) : reached ∈ t.passed place names := by
  induction names generalizing place with
  | nil => exact List.mem_singleton.2 (Except.ok.inj h).symm
  | cons name names ih =>
    rw [follow_cons] at h
    obtain ⟨next, hnext, h⟩ := bind_eq_ok h
    rw [passed, hnext]
    exact List.mem_cons_of_mem _ (ih h)

theorem passed_subset_append (place : Place) (names more : List String) :
    t.passed place names ⊆ t.passed place (names ++ more) := by
  induction names generalizing place with
  | nil =>
    rw [List.nil_append]
    cases more <;> simp [passed]
  | cons name names ih =>
    rw [List.cons_append, passed, passed]
    refine List.cons_subset_cons _ ?_
    split
    · exact ih _
    · exact fun _ h => h

/-- Components lead to the same place in trees with the same entries on the way. -/
theorem follow_congr (h : ∀ other ∈ t.passed place names, t'.entry? other = t.entry? other) :
    t'.follow place names = t.follow place names := by
  induction names generalizing place with
  | nil => rfl
  | cons name names ih =>
    have hsame : t'.follow place [name] = t.follow place [name] := by
      simp only [follow, h place List.mem_cons_self]
    rw [follow_cons, follow_cons t, hsame]
    rw [passed] at h
    cases hnext : t.follow place [name] with
    | error fault => rfl
    | ok next =>
      rw [hnext] at h
      exact ih fun other hother => h other (List.mem_cons_of_mem _ hother)

theorem locate_of_locateFile (h : t.locateFile p = .ok place) : t.locate p = .ok place := by
  rw [locateFile] at h
  split_ifs at h
  · split at h <;> cases h
  · exact h

/-- Two trees have the same entries where a path leads through, and where it leads to. -/
structure AgreeAlong (t t' : FileTree) (p : Path) : Prop where
  working : t'.workingDirectory = t.workingDirectory
  entries : ∀ place ∈ t.passed (t.start p) p.components, t'.entry? place = t.entry? place

namespace AgreeAlong

theorem start (h : AgreeAlong t t' p) : t'.start p = t.start p := by
  rw [FileTree.start, FileTree.start, h.working]

theorem locate (h : AgreeAlong t t' p) : t'.locate p = t.locate p := by
  rw [FileTree.locate, FileTree.locate, h.start, follow_congr h.entries]

theorem entry? (h : AgreeAlong t t' p) (hplace : t.locate p = .ok place) :
    t'.entry? place = t.entry? place := by
  rw [locate_eq (text_ne_empty hplace)] at hplace
  exact h.entries place (mem_passed hplace)

theorem find (h : AgreeAlong t t' p) : t'.find p = t.find p := by
  rw [FileTree.find, FileTree.find, h.locate]
  cases hlocate : t.locate p with
  | error fault => rfl
  | ok place =>
    dsimp only
    rw [h.entry? hlocate]

theorem locateFile (h : AgreeAlong t t' p) : t'.locateFile p = t.locateFile p := by
  have hsplit : (p.components.reverse.dropWhile (· == "")).reverse ++
      (p.components.reverse.takeWhile (· == "")).reverse = p.components := by
    rw [← List.reverse_append, List.takeWhile_append_dropWhile, List.reverse_reverse]
  have htrimmed := follow_congr fun other hother => h.entries other
    (hsplit ▸ passed_subset_append _ _ _ hother)
  rw [FileTree.locateFile, FileTree.locateFile, h.locate, h.start, htrimmed]

/-- A text is written at the same place in both trees, or cannot be for the same reason. -/
theorem write (h : AgreeAlong t t' p) (text : String) :
    (∃ fault, t.write p text = .error fault ∧ t'.write p text = .error fault) ∨
      ∃ place, t.write p text = .ok (t.put place (.file (.text text))) ∧
        t'.write p text = .ok (t'.put place (.file (.text text))) := by
  rw [FileTree.write, FileTree.write, h.locateFile]
  cases hplace : t.locateFile p with
  | error fault => exact .inl ⟨fault, rfl, rfl⟩
  | ok place =>
    dsimp only
    rw [h.entry? (locate_of_locateFile hplace)]
    split
    · exact .inl ⟨_, rfl, rfl⟩
    · exact .inr ⟨place, rfl, rfl⟩

end AgreeAlong

end Agreement

end FileTree

end CalcLang
