import CalcLang.Path
import Mathlib.Data.List.TakeWhile

/-!
# Components of paths

A path is split at its slashes, and what is behind the last one is the name of a file unless it is
empty, `.` or `..`. Such a path keeps its other components when its extension is replaced
(`components_withExtension`). A path joined to a directory has its components behind those of the
directory, but for the empty one of a slash at the end (`components_join`).
-/

namespace CalcLang

/-- A name that an entry of a directory can have. -/
structure IsEntryName (name : String) : Prop where
  ne_empty : name ≠ ""
  ne_dot : name ≠ "."
  ne_dots : name ≠ ".."
  slash : '/' ∉ name.toList

theorem IsEntryName.isAbsolute {name : String} (h : IsEntryName name) :
    Path.isAbsolute ⟨name⟩ = false :=
  beq_false_of_ne fun hhead => h.slash (List.mem_of_head? hhead)

namespace Path

/-! ## Splitting at slashes -/

section Split

variable {c : Char} {cs ds dir name : List Char}

theorem splitSlashes_ne_nil (cs : List Char) : splitSlashes cs ≠ [] := by
  cases cs with
  | nil => exact List.cons_ne_nil _ _
  | cons c cs =>
    rw [splitSlashes]
    split
    · exact List.cons_ne_nil _ _
    · split <;> exact List.cons_ne_nil _ _

theorem splitSlashes_slash (cs : List Char) : splitSlashes ('/' :: cs) = [] :: splitSlashes cs := by
  rw [splitSlashes]
  split
  · next h => exact absurd h (splitSlashes_ne_nil cs)
  · next h => rw [if_pos rfl, h]

theorem splitSlashes_cons {piece : List Char} {pieces : List (List Char)} (hc : c ≠ '/')
    (h : splitSlashes cs = piece :: pieces) :
    splitSlashes (c :: cs) = (c :: piece) :: pieces := by
  rw [splitSlashes, h]
  exact if_neg hc

theorem slash_notMem_of_mem {piece : List Char} (h : piece ∈ splitSlashes cs) : '/' ∉ piece := by
  induction cs generalizing piece with
  | nil =>
    rw [List.mem_singleton.1 h]
    exact List.not_mem_nil
  | cons c cs ih =>
    by_cases hc : c = '/'
    · subst hc
      rw [splitSlashes_slash] at h
      rcases List.mem_cons.1 h with rfl | h
      · exact List.not_mem_nil
      · exact ih h
    · obtain ⟨first, pieces, hsplit⟩ := List.exists_cons_of_ne_nil (splitSlashes_ne_nil cs)
      rw [splitSlashes_cons hc hsplit] at h
      rcases List.mem_cons.1 h with rfl | h
      · have hfirst := ih (hsplit ▸ List.mem_cons_self)
        exact fun hmem => (List.mem_cons.1 hmem).elim (fun heq => hc heq.symm) hfirst
      · exact ih (hsplit ▸ List.mem_cons_of_mem _ h)

theorem splitSlashes_of_notMem (h : '/' ∉ cs) : splitSlashes cs = [cs] := by
  induction cs with
  | nil => rfl
  | cons c cs ih =>
    rw [List.mem_cons, not_or] at h
    exact splitSlashes_cons (Ne.symm h.1) (ih h.2)

theorem splitSlashes_append_slash (cs ds : List Char) :
    splitSlashes (cs ++ '/' :: ds) = splitSlashes cs ++ splitSlashes ds := by
  induction cs with
  | nil => exact splitSlashes_slash ds
  | cons c cs ih =>
    by_cases hc : c = '/'
    · subst hc
      rw [List.cons_append, splitSlashes_slash, splitSlashes_slash, ih, List.cons_append]
    · obtain ⟨piece, pieces, hsplit⟩ := List.exists_cons_of_ne_nil (splitSlashes_ne_nil cs)
      rw [hsplit] at ih
      rw [List.cons_append, splitSlashes_cons hc ih, splitSlashes_cons hc hsplit]
      rfl

/-- A text that another name can follow: it is empty or ends in a slash. -/
def IsFolder (dir : List Char) : Prop := dir = [] ∨ ∃ before, dir = before ++ ['/']

/-- The components of such a text. -/
def folders (dir : List Char) : List String := (splitSlashes dir).dropLast.map String.ofList

theorem isFolder_reverse_dropWhile (cs : List Char) :
    IsFolder (cs.dropWhile (· != '/')).reverse := by
  cases h : cs.dropWhile (· != '/') with
  | nil => exact .inl rfl
  | cons c rest =>
    have hc := List.head?_dropWhile_not (· != '/') cs
    rw [h] at hc
    refine .inr ⟨rest.reverse, ?_⟩
    have hslash : c = '/' := by simpa using hc
    rw [List.reverse_cons, hslash]

theorem splitSlashes_append (hdir : IsFolder dir) (hname : '/' ∉ name) :
    splitSlashes (dir ++ name) = (splitSlashes dir).dropLast ++ [name] := by
  rcases hdir with rfl | ⟨before, rfl⟩
  · exact splitSlashes_of_notMem hname
  · rw [List.append_assoc, List.singleton_append, splitSlashes_append_slash,
      splitSlashes_append_slash, splitSlashes_of_notMem hname,
      splitSlashes_of_notMem List.not_mem_nil, List.dropLast_concat]

theorem slash_notMem_last (cs : List Char) :
    '/' ∉ (cs.reverse.takeWhile (· != '/')).reverse := fun h => by
  have hmem := List.mem_takeWhile_imp (List.mem_reverse.1 h)
  simp at hmem

/-- The text behind the last slash is the last piece. -/
theorem splitSlashes_eq (cs : List Char) :
    splitSlashes cs = (splitSlashes (cs.reverse.dropWhile (· != '/')).reverse).dropLast ++
      [(cs.reverse.takeWhile (· != '/')).reverse] := by
  rw [← splitSlashes_append (isFolder_reverse_dropWhile _) (slash_notMem_last cs),
    ← List.reverse_append, List.takeWhile_append_dropWhile, List.reverse_reverse]

/-- More text without slashes lengthens the last piece. -/
theorem splitSlashes_append_of_notMem {pieces : List (List Char)} {piece suffix : List Char}
    (h : splitSlashes cs = pieces ++ [piece]) (hsuffix : '/' ∉ suffix) :
    splitSlashes (cs ++ suffix) = pieces ++ [piece ++ suffix] := by
  rw [splitSlashes_eq] at h
  obtain ⟨rfl, hpiece⟩ := List.append_inj' h rfl
  obtain rfl := List.singleton_inj.1 hpiece
  have hslash : '/' ∉ (cs.reverse.takeWhile (· != '/')).reverse ++ suffix :=
    fun hmem => (List.mem_append.1 hmem).elim (slash_notMem_last cs) hsuffix
  rw [← splitSlashes_append (isFolder_reverse_dropWhile _) hslash, ← List.append_assoc,
    ← List.reverse_append, List.takeWhile_append_dropWhile, List.reverse_reverse]

end Split

theorem components_append {dir : List Char} (hdir : IsFolder dir) {name : String}
    (hname : '/' ∉ name.toList) :
    components ⟨String.ofList dir ++ name⟩ = folders dir ++ [name] := by
  rw [components, String.toList_append, String.toList_ofList, splitSlashes_append hdir hname,
    List.map_append, List.map_singleton, String.ofList_toList]
  rfl

theorem components_append_of_notMem {s suffix : String} {before : List String} {last : String}
    (h : components ⟨s⟩ = before ++ [last]) (hsuffix : '/' ∉ suffix.toList) :
    components ⟨s ++ suffix⟩ = before ++ [last ++ suffix] := by
  obtain ⟨pieces, lastPieces, hpieces, rfl, hlast⟩ := List.map_eq_append_iff.1 h
  obtain ⟨piece, rfl, rfl⟩ := List.map_eq_singleton_iff.1 hlast
  rw [components, String.toList_append, splitSlashes_append_of_notMem hpieces hsuffix,
    List.map_append, List.map_singleton, String.ofList_append, String.ofList_toList]

theorem components_of_notMem {name : String} (hname : '/' ∉ name.toList) :
    components ⟨name⟩ = [name] := by
  rw [components, splitSlashes_of_notMem hname, List.map_singleton, String.ofList_toList]

theorem slash_notMem_of_mem_components {p : Path} {name : String} (h : name ∈ p.components) :
    '/' ∉ name.toList := by
  obtain ⟨piece, hpiece, rfl⟩ := List.mem_map.1 h
  rw [String.toList_ofList]
  exact slash_notMem_of_mem hpiece

/-! ## Names of files -/

section Name

variable {p : Path} {before : List String} {name : String}

/-- There is nothing to drop behind a name. -/
theorem trimReversed_eq {cs : List Char} (hempty : cs.takeWhile (· != '/') ≠ [])
    (hdot : cs.takeWhile (· != '/') ≠ ['.']) : trimReversed cs = cs := by
  fun_cases trimReversed cs with
  | case1 => exact absurd rfl hempty
  | case2 => exact absurd rfl hdot
  | case3 => rfl

/-- A path whose last component can be the name of an entry ends in that name. -/
theorem exists_splitName? (h : p.components = before ++ [name]) (hname : IsEntryName name) :
    ∃ dir, IsFolder dir ∧ folders dir = before ∧ p.text.toList = dir ++ name.toList ∧
      p.splitName? = some (dir, name.toList) := by
  have hsplit := splitSlashes_eq p.text.toList
  rw [components, hsplit, List.map_append] at h
  obtain ⟨hbefore, hlast⟩ := List.append_inj' h rfl
  obtain rfl := List.singleton_inj.1 hlast
  have hempty : p.text.toList.reverse.takeWhile (· != '/') ≠ [] :=
    fun hnil => hname.ne_empty (by rw [hnil]; rfl)
  have hdot : p.text.toList.reverse.takeWhile (· != '/') ≠ ['.'] :=
    fun hdot => hname.ne_dot (by rw [hdot]; rfl)
  have hdots : p.text.toList.reverse.takeWhile (· != '/') ≠ ['.', '.'] :=
    fun hdots => hname.ne_dots (by rw [hdots]; rfl)
  refine ⟨_, isFolder_reverse_dropWhile _, hbefore, ?_, ?_⟩
  · rw [String.toList_ofList, ← List.reverse_append, List.takeWhile_append_dropWhile,
      List.reverse_reverse]
  · rw [String.toList_ofList, splitName?, splitLast, trimReversed_eq hempty hdot]
    refine if_neg fun hnone => ?_
    simp only [Bool.or_eq_true, beq_iff_eq] at hnone
    rcases hnone with (h | h) | h
    · exact hempty (List.reverse_eq_iff.1 h)
    · exact hdot (List.reverse_eq_iff.1 h)
    · exact hdots (List.reverse_eq_iff.1 h)

/-- The name of an entry as a path. -/
theorem splitName?_of_isEntryName (hname : IsEntryName name) :
    splitName? ⟨name⟩ = some ([], name.toList) := by
  obtain ⟨dir, -, -, htext, hsplit⟩ := @exists_splitName? ⟨name⟩ [] name
    (components_of_notMem hname.slash) hname
  obtain rfl : dir = [] := List.self_eq_append_left.1 htext
  exact hsplit

/-- A name keeps its extension in a directory. -/
theorem extension?_eq (h : p.components = before ++ [name]) (hname : IsEntryName name) :
    p.extension? = extension? ⟨name⟩ := by
  obtain ⟨dir, -, -, -, hsplit⟩ := exists_splitName? h hname
  rw [extension?, extension?, hsplit, splitName?_of_isEntryName hname]
  rfl

/-! ## Extensions -/

theorem splitDot_append {stem ext : List Char} (hstem : stem ≠ []) (hext : '.' ∉ ext) :
    splitDot (stem ++ '.' :: ext) = (stem, some ext) := by
  have hall : ∀ c ∈ ext.reverse, (c != '.') = true := fun c hc =>
    bne_iff_ne.2 fun heq => hext (List.mem_reverse.1 (heq ▸ hc))
  have hrev : (stem ++ '.' :: ext).reverse = ext.reverse ++ '.' :: stem.reverse := by simp
  obtain ⟨c, cs, hcs⟩ := List.exists_cons_of_ne_nil (mt List.reverse_eq_nil_iff.1 hstem)
  obtain rfl := List.reverse_eq_iff.1 hcs
  rw [splitDot, hrev, List.dropWhile_append_of_pos hall, List.takeWhile_append_of_pos hall, hcs,
    List.dropWhile_cons_of_neg (by simp), List.takeWhile_cons_of_neg (by simp)]
  simp

theorem splitDot_of_notMem {ext : List Char} (hext : '.' ∉ ext) :
    splitDot ('.' :: ext) = ('.' :: ext, none) := by
  have hall : ∀ c ∈ ext.reverse, (c != '.') = true := fun c hc =>
    bne_iff_ne.2 fun heq => hext (List.mem_reverse.1 (heq ▸ hc))
  rw [splitDot, List.reverse_cons, List.dropWhile_append_of_pos hall,
    List.dropWhile_cons_of_neg (by simp)]

theorem splitDot_cases (cs : List Char) :
    splitDot cs = (cs, none) ∨
      ∃ stem ext, cs = stem ++ '.' :: ext ∧ splitDot cs = (stem, some ext) := by
  have hhead := List.head?_dropWhile_not (· != '.') cs.reverse
  have hsplit := List.takeWhile_append_dropWhile (p := (· != '.')) (l := cs.reverse)
  rw [splitDot]
  match hrest : cs.reverse.dropWhile (· != '.') with
  | [] | [_] => exact .inl rfl
  | c :: d :: rest =>
    rw [hrest] at hhead hsplit
    obtain rfl : c = '.' := by simpa using hhead
    refine .inr ⟨(d :: rest).reverse, (cs.reverse.takeWhile (· != '.')).reverse, ?_, rfl⟩
    have hcs := congrArg List.reverse hsplit
    rw [List.reverse_reverse, List.reverse_append, List.reverse_cons, List.append_assoc] at hcs
    exact hcs.symm

/-- What an extension of a file can be. -/
structure IsExtension (ext : String) : Prop where
  ne_empty : ext ≠ ""
  dot : '.' ∉ ext.toList
  slash : '/' ∉ ext.toList

variable {stem ext : String}

/-- What ends in an extension is the name of an entry. -/
theorem IsExtension.isEntryName (hext : IsExtension ext) (hstem : '/' ∉ stem.toList) :
    IsEntryName (stem ++ "." ++ ext) := by
  have htext : (stem ++ "." ++ ext).toList = stem.toList ++ '.' :: ext.toList := by simp
  have hne (s : String) (h : stem.toList ++ '.' :: ext.toList ≠ s.toList) :
      stem ++ "." ++ ext ≠ s := fun heq => h (htext ▸ congrArg String.toList heq)
  have hnil : ext.toList ≠ [] := fun h => hext.ne_empty (String.toList_eq_nil_iff.1 h)
  refine ⟨hne _ (by simp), hne _ ?_, hne _ ?_, ?_⟩
  · cases stem.toList <;> simp [hnil]
  · match stem.toList with
    | [] => exact fun h => hext.dot ((List.cons.inj h).2 ▸ List.mem_singleton_self '.')
    | [_] => simp [hnil]
    | _ :: _ :: _ => simp
  · rw [htext]
    simp [hstem, hext.slash]

/-- The name of a file with another extension. -/
def renamed (name ext : String) : String := (withExtension ⟨name⟩ ext).text

theorem renamed_eq (hname : IsEntryName name) (ext : String) :
    renamed name ext = String.ofList (splitDot name.toList).1 ++ "." ++ ext := by
  rw [renamed, withExtension, splitName?_of_isEntryName hname]
  rfl

theorem slash_notMem_stem (hname : IsEntryName name) :
    '/' ∉ (String.ofList (splitDot name.toList).1).toList := by
  rw [String.toList_ofList]
  rcases splitDot_cases name.toList with h | ⟨stem, ext, hsplit, h⟩ <;> rw [h]
  · exact hname.slash
  · exact fun hmem => hname.slash (hsplit ▸ List.mem_append_left _ hmem)

theorem isEntryName_renamed (hname : IsEntryName name) (hext : IsExtension ext) :
    IsEntryName (renamed name ext) :=
  renamed_eq hname ext ▸ hext.isEntryName (slash_notMem_stem hname)

/-- A name stays the same with an extension exactly if that is its extension. -/
theorem renamed_eq_self_iff (hname : IsEntryName name) :
    renamed name ext = name ↔ extension? ⟨name⟩ = some ext := by
  rw [renamed_eq hname, extension?, splitName?_of_isEntryName hname, ← String.toList_inj,
    Option.bind_some]
  rcases splitDot_cases name.toList with h | ⟨stem, ext', hsplit, h⟩ <;> rw [h]
  · refine iff_of_false (fun heq => ?_) nofun
    have hlength := congrArg List.length heq
    simp at hlength
  · rw [hsplit]
    simp [← String.toList_inj, eq_comm]

/-- With another extension a path ends in its name with that extension. -/
theorem components_withExtension (h : p.components = before ++ [name]) (hname : IsEntryName name)
    (hext : IsExtension ext) : (p.withExtension ext).components = before ++ [renamed name ext] := by
  obtain ⟨dir, hdir, hbefore, -, hsplit⟩ := exists_splitName? h hname
  have hslash := (isEntryName_renamed hname hext).slash
  rw [← hbefore, ← components_append hdir hslash, withExtension, hsplit, renamed_eq hname]
  dsimp only
  rw [String.ofList_append, String.append_assoc, String.append_assoc, String.append_assoc]

/-- What ends in an extension has that extension, unless there is nothing before it. -/
theorem extension?_append (hext : IsExtension ext) (hstem : '/' ∉ stem.toList) :
    extension? ⟨stem ++ "." ++ ext⟩ = if stem = "" then none else some ext := by
  rw [extension?, splitName?_of_isEntryName (hext.isEntryName hstem), Option.bind_some]
  have htext : (stem ++ "." ++ ext).toList = stem.toList ++ '.' :: ext.toList := by simp
  rw [htext]
  split_ifs with hempty
  · subst hempty
    exact congrArg (fun s => s.2.map String.ofList) (splitDot_of_notMem hext.dot)
  · rw [splitDot_append (mt String.toList_eq_nil_iff.1 hempty) hext.dot, Option.map_some,
      String.ofList_toList]

end Name

/-! ## Joined paths -/

theorem exists_components (p : Path) : ∃ before name, p.components = before ++ [name] :=
  ⟨_, _, (List.dropLast_concat_getLast (mt List.map_eq_nil_iff.1 (splitSlashes_ne_nil _))).symm⟩

/-- A path starts at the root if its first component is empty and not its last. -/
theorem isAbsolute_eq {p : Path} {before : List String} {name : String}
    (h : p.components = before ++ [name]) : p.isAbsolute = (before.head? == some "") := by
  rw [components] at h
  rw [isAbsolute]
  cases hcs : p.text.toList with
  | nil =>
    rw [hcs] at h
    obtain ⟨rfl, -⟩ := @List.append_inj' _ [] _ _ _ h rfl
    rfl
  | cons c cs =>
    obtain ⟨piece, pieces, hsplit⟩ := List.exists_cons_of_ne_nil (splitSlashes_ne_nil cs)
    rw [hcs] at h
    by_cases hc : c = '/'
    · subst hc
      rw [splitSlashes_slash, hsplit] at h
      cases before with
      | nil => simp at h
      | cons first before =>
        obtain rfl := (List.cons.inj h).1
        rfl
    · rw [splitSlashes_cons hc hsplit] at h
      cases before with
      | nil => simp [hc]
      | cons first before =>
        obtain rfl := (List.cons.inj h).1
        simp [hc]

theorem join_of_isAbsolute {p q : Path} (h : q.isAbsolute) : p.join q = q := if_pos h

/-- The components of a joined path are those of both paths, without the empty one at a slash. -/
theorem components_join {p q : Path} (hp : p.text ≠ "") (hq : q.isAbsolute = false) :
    (p.join q).components = p.components ++ q.components ∨
      ∃ before, p.components = before ++ [""] ∧ (p.join q).components = before ++ q.components := by
  rw [join, if_neg (by simp [hq])]
  by_cases hlast : p.text.toList.getLast? = some '/'
  · obtain ⟨before, hbefore⟩ := List.getLast?_eq_some_iff.1 hlast
    refine .inr ⟨(splitSlashes before).map String.ofList, ?_, ?_⟩
    · rw [components, hbefore, splitSlashes_append_slash, List.map_append]
      rfl
    · rw [if_pos (by simp [hlast]), components, String.toList_append, hbefore, List.append_assoc,
        List.singleton_append, splitSlashes_append_slash, List.map_append]
      rfl
  · left
    rw [if_neg (by simp [hlast, hp]), components, String.toList_append, String.toList_append,
      List.append_assoc]
    exact (congrArg _ (splitSlashes_append_slash ..)).trans (List.map_append ..)

/-- A joined path ends in the components of what is joined to it. -/
theorem exists_components_join {p : Path} (hp : p.text ≠ "") (q : Path) :
    ∃ before, (p.join q).components = before ++ q.components := by
  cases hq : q.isAbsolute with
  | true => exact ⟨[], by rw [join_of_isAbsolute hq, List.nil_append]⟩
  | false =>
    rcases components_join hp hq with h | ⟨before, -, h⟩
    · exact ⟨_, h⟩
    · exact ⟨before, h⟩

/-- A name keeps its extension when it is joined to a directory. -/
theorem extension?_join {p : Path} (hp : p.text ≠ "") {name : String} (hname : IsEntryName name) :
    (p.join ⟨name⟩).extension? = extension? ⟨name⟩ := by
  obtain ⟨before, h⟩ := exists_components_join hp ⟨name⟩
  rw [components_of_notMem hname.slash] at h
  exact extension?_eq h hname

theorem isAbsolute_join {p q : Path} (hp : p.text ≠ "") (hq : q.isAbsolute = false) :
    (p.join q).isAbsolute = p.isAbsolute := by
  obtain ⟨c, cs, hcs⟩ := List.exists_cons_of_ne_nil (mt String.toList_eq_nil_iff.1 hp)
  rw [join, if_neg (by simp [hq])]
  split <;> simp [isAbsolute, hcs]

theorem text_join_ne_empty (p : Path) {q : Path} (hq : q.text ≠ "") : (p.join q).text ≠ "" := by
  rw [join]
  split_ifs <;> simp [hq]

end Path

end CalcLang
