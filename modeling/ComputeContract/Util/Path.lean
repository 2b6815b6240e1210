import ComputeContract.Lib.Split

/-!
# Paths

Paths with `/` as separator, and the join that normalises: empty parts and `.` are dropped, and
`..` takes the part before it back. A path is absolute or not, and has parts; a plain name that
is joined to it is one more part.

* `normalize_text`: what is normalised keeps its parts;
* `joinAll_concat`: names are joined one by one or all at once;
* `joinAll_eq_append`: to a path that ends in a name, another one is appended.
-/

namespace ComputeContract.Path

/-- Add a part; `above` if `..` may lead out of the start. -/
def addPart (above : Bool) (parts : List (List Char)) (part : List Char) : List (List Char) :=
  if part = [] ∨ part = ['.'] then parts
  else if part = ['.', '.'] then
    if parts ≠ [] ∧ parts.getLast? ≠ some ['.', '.'] then parts.dropLast
    else if above then parts ++ [part] else parts
  else parts ++ [part]

def isAbsolute (path : List Char) : Bool := path.head? = some '/'

/-- The parts of a path, normalised. -/
def parts (path : List Char) : List (List Char) :=
  (path.splitOn '/').foldl (addPart !(isAbsolute path)) []

/-- The text of an absolute or relative path with some parts. -/
def render (absolute : Bool) (ps : List (List Char)) : List Char :=
  (if absolute then ['/'] else []) ++ ['/'].intercalate ps

def normalize (path : List Char) : List Char :=
  if path = [] then ['.']
  else
    let trailing := if path.getLast? = some '/' then ['/'] else []
    if parts path = [] then if isAbsolute path then ['/'] else '.' :: trailing
    else render (isAbsolute path) (parts path) ++ trailing

/-- `join(...args)` -/
def joinAll (args : List (List Char)) : List Char :=
  match args.filter (· ≠ []) with
  | [] => ['.']
  | args => normalize (['/'].intercalate args)

/-- A name of a file: not empty, without `/`, and neither `.` nor `..`. -/
structure Plain (name : List Char) : Prop where
  ne_nil : name ≠ []
  slash : '/' ∉ name
  dot : name ≠ ['.']
  dots : name ≠ ['.', '.']

/-! ## Parts -/

theorem addPart_of_plain {name : List Char} (h : Plain name) (above : Bool)
    (ps : List (List Char)) : addPart above ps name = ps ++ [name] := by
  rw [addPart, if_neg (not_or.2 ⟨h.ne_nil, h.dot⟩), if_neg h.dots]

/-- What a part of a normalised path is. -/
structure IsPart (part : List Char) : Prop where
  ne_nil : part ≠ []
  dot : part ≠ ['.']
  slash : '/' ∉ part

theorem Plain.isPart {name : List Char} (h : Plain name) : IsPart name := ⟨h.ne_nil, h.dot, h.slash⟩

/-- Parts that are normalised stay as they are. -/
structure Normal (above : Bool) (ps : List (List Char)) : Prop where
  foldl_eq : ps.foldl (addPart above) [] = ps
  isPart : ∀ p ∈ ps, IsPart p

/-- A part is added behind, or nothing is, or the last one is taken back. -/
theorem addPart_cases (above : Bool) (ps : List (List Char)) (part : List Char) :
    addPart above ps part = ps ∨
      (addPart above ps part = ps ++ [part] ∧ part ≠ [] ∧ part ≠ ['.']) ∨
      addPart above ps part = ps.dropLast ∧ ps.getLast? ≠ some ['.', '.'] := by
  rw [addPart]
  split_ifs with h₁ h₂ h₃ h₄
  · exact .inl rfl
  · exact .inr (.inr ⟨rfl, h₃.2⟩)
  · exact .inr (.inl ⟨rfl, not_or.1 h₁⟩)
  · exact .inl rfl
  · exact .inr (.inl ⟨rfl, not_or.1 h₁⟩)

section
variable {above : Bool} {ps : List (List Char)} {part name : List Char}

theorem normal_nil (above : Bool) : Normal above [] := ⟨rfl, by simp⟩

theorem Normal.dropLast (h : Normal above ps) (hlast : ps.getLast? ≠ some ['.', '.']) :
    Normal above ps.dropLast := by
  rcases List.eq_nil_or_concat' ps with rfl | ⟨init, part, rfl⟩
  · exact h
  · rw [List.getLast?_concat] at hlast
    have hpart := h.isPart part (List.mem_append_right _ (List.mem_singleton_self part))
    have hplain : Plain part := ⟨hpart.ne_nil, hpart.slash, hpart.dot, fun heq => hlast (heq ▸ rfl)⟩
    have hfold := h.foldl_eq
    rw [List.foldl_append, List.foldl_cons, List.foldl_nil, addPart_of_plain hplain] at hfold
    rw [List.dropLast_concat]
    exact ⟨List.append_cancel_right hfold, fun p hp => h.isPart p (List.mem_append_left _ hp)⟩

theorem Normal.concat (h : Normal above ps) (hpart : IsPart part)
    (hadd : addPart above ps part = ps ++ [part]) : Normal above (ps ++ [part]) := by
  refine ⟨?_, fun p hp => ?_⟩
  · rw [List.foldl_append, h.foldl_eq, List.foldl_cons, List.foldl_nil, hadd]
  · rcases List.mem_append.1 hp with hp | hp
    · exact h.isPart p hp
    · exact List.mem_singleton.1 hp ▸ hpart

theorem Normal.add (h : Normal above ps) (hslash : '/' ∉ part) :
    Normal above (addPart above ps part) := by
  rcases addPart_cases above ps part with heq | ⟨heq, hne, hdot⟩ | ⟨heq, hlast⟩
  · exact heq.symm ▸ h
  · exact heq.symm ▸ h.concat ⟨hne, hdot, hslash⟩ heq
  · exact heq.symm ▸ h.dropLast hlast

/-- The parts of a path are normalised. -/
theorem normal_parts (path : List Char) : Normal (!isAbsolute path) (parts path) := by
  rw [parts]
  refine List.foldlRecOn (motive := fun ps => Normal (!isAbsolute path) ps) _ _
    (normal_nil _) fun ps hps part hpart => hps.add (not_mem_of_mem_splitOn hpart)

end

/-! ## Texts -/

theorem intercalate_concat {ps : List (List Char)} (h : ps ≠ []) (part : List Char) :
    ['/'].intercalate (ps ++ [part]) = ['/'].intercalate ps ++ '/' :: part := by
  induction ps with
  | nil => exact absurd rfl h
  | cons p ps ih =>
    rw [List.cons_append, List.intercalate_cons_of_ne_nil (by simp)]
    cases ps with
    | nil => simp
    | cons p' ps =>
      rw [ih (List.cons_ne_nil _ _), List.intercalate_cons_of_ne_nil (List.cons_ne_nil p' ps)]
      simp

theorem render_concat {absolute : Bool} {ps : List (List Char)} (h : ps ≠ []) (part : List Char) :
    render absolute (ps ++ [part]) = render absolute ps ++ '/' :: part := by
  rw [render, intercalate_concat h, render, List.append_assoc]

/-- A path that begins and goes on like another one, with a `/` between. -/
theorem splitOn_slash (path rest : List Char) :
    (path ++ '/' :: rest).splitOn '/' = path.splitOn '/' ++ rest.splitOn '/' :=
  List.splitOn_append_cons_self path rest

theorem isAbsolute_append {path : List Char} (h : path ≠ []) (rest : List Char) :
    isAbsolute (path ++ rest) = isAbsolute path := by
  rw [isAbsolute, isAbsolute, List.head?_append_of_ne_nil _ h]

/-- A name that is put behind a path is one more part. -/
theorem parts_append {path name : List Char} (hpath : path ≠ []) (h : Plain name) :
    parts (path ++ '/' :: name) = parts path ++ [name] := by
  rw [parts, isAbsolute_append hpath, splitOn_slash, List.splitOn_eq_singleton h.slash,
    List.foldl_append, List.foldl_cons, List.foldl_nil, addPart_of_plain h]
  rfl

/-- So is nothing. -/
theorem parts_append_slash {path : List Char} (hpath : path ≠ []) :
    parts (path ++ ['/']) = parts path := by
  rw [parts, isAbsolute_append hpath, splitOn_slash, List.splitOn_nil, List.foldl_append]
  rfl

section
variable {absolute : Bool} {ps : List (List Char)}

theorem isAbsolute_render (h : Normal (!absolute) ps) (hne : ps ≠ []) :
    isAbsolute (render absolute ps) = absolute := by
  obtain ⟨p, ps, rfl⟩ := List.exists_cons_of_ne_nil hne
  have hp := h.isPart p List.mem_cons_self
  cases absolute with
  | true => rfl
  | false =>
    obtain ⟨c, p, rfl⟩ := List.exists_cons_of_ne_nil hp.ne_nil
    have hc : c ≠ '/' := fun heq => hp.slash (heq ▸ List.mem_cons_self)
    have hhead : (render false ((c :: p) :: ps)).head? = some c := by
      cases ps <;> simp [render]
    rw [isAbsolute, hhead, decide_eq_false_iff_not]
    exact fun heq => hc (Option.some.inj heq)

/-- The parts of a text are those that it is made of. -/
theorem parts_render (h : Normal (!absolute) ps) (hne : ps ≠ []) :
    parts (render absolute ps) = ps := by
  have hsplit : (['/'].intercalate ps).splitOn '/' = ps :=
    List.splitOn_intercalate _ (fun p hp => (h.isPart p hp).slash) hne
  rw [parts, isAbsolute_render h hne, render]
  cases absolute with
  | true =>
    have hslash : (['/'] ++ ['/'].intercalate ps).splitOn '/' = [[]] ++ ps :=
      (splitOn_slash [] _).trans (congrArg _ hsplit)
    rw [if_pos rfl, hslash, List.foldl_append]
    exact h.foldl_eq
  | false =>
    rw [if_neg Bool.false_ne_true, List.nil_append, hsplit]
    exact h.foldl_eq

theorem render_ne_nil (h : Normal (!absolute) ps) (hne : ps ≠ []) : render absolute ps ≠ [] := by
  intro heq
  have hparts := parts_render h hne
  rw [heq] at hparts
  exact hne (hparts.symm.trans rfl)

end

/-- A path that is normalised is as absolute as before, and keeps its parts. -/
theorem normalize_spec {path : List Char} (hpath : path ≠ []) : normalize path ≠ [] ∧
    isAbsolute (normalize path) = isAbsolute path ∧ parts (normalize path) = parts path := by
  have hnormal := normal_parts path
  rw [normalize, if_neg hpath]
  dsimp only
  split_ifs with hnil habsolute hslash hslash
  · rw [hnil, habsolute]
    exact ⟨List.cons_ne_nil _ _, rfl, rfl⟩
  · rw [hnil, Bool.eq_false_iff.2 habsolute]
    exact ⟨List.cons_ne_nil _ _, rfl, rfl⟩
  · rw [hnil, Bool.eq_false_iff.2 habsolute]
    exact ⟨List.cons_ne_nil _ _, rfl, rfl⟩
  · have hne := render_ne_nil hnormal hnil
    rw [isAbsolute_append hne, parts_append_slash hne, isAbsolute_render hnormal hnil,
      parts_render hnormal hnil]
    exact ⟨by simp, rfl, rfl⟩
  · have hne := render_ne_nil hnormal hnil
    rw [List.append_nil, isAbsolute_render hnormal hnil, parts_render hnormal hnil]
    exact ⟨hne, rfl, rfl⟩

/-- A path that ends in a name is made of its parts. -/
theorem normalize_append {path name : List Char} (hpath : path ≠ []) (h : Plain name) :
    normalize (path ++ '/' :: name) = render (isAbsolute path) (parts path ++ [name]) := by
  have hlast : (path ++ '/' :: name).getLast? ≠ some '/' := by
    intro heq
    obtain ⟨c, name', rfl⟩ := List.exists_cons_of_ne_nil h.ne_nil
    rw [List.getLast?_append, List.getLast?_cons_cons] at heq
    have hmem := List.mem_of_getLast? (by simpa using heq)
    exact h.slash hmem
  rw [normalize, if_neg (by simp), parts_append hpath h, isAbsolute_append hpath, if_neg hlast,
    if_neg (by simp)]
  exact List.append_nil _

/-- A name is a path already. -/
theorem normalize_plain {name : List Char} (h : Plain name) :
    normalize (['/'].intercalate [name]) = render false [name] := by
  have hrelative : isAbsolute name = false :=
    decide_eq_false fun heq => h.slash (List.mem_of_mem_head? heq)
  have hlast : name.getLast? ≠ some '/' := fun heq => h.slash (List.mem_of_getLast? heq)
  have hparts : parts name = [name] := by
    rw [parts, List.splitOn_eq_singleton h.slash]
    exact addPart_of_plain h _ _
  rw [List.intercalate_singleton, normalize, if_neg h.ne_nil, hparts, hrelative, if_neg hlast,
    if_neg (List.cons_ne_nil _ _)]
  exact List.append_nil _

/-! ## Joining -/

/-- The text that `joinAll` normalises: nothing, or the paths that are not empty. -/
theorem intercalate_ne_nil {args : List (List Char)} (hne : args ≠ [])
    (h : ∀ a ∈ args, a ≠ []) : ['/'].intercalate args ≠ [] := by
  obtain ⟨a, args, rfl⟩ := List.exists_cons_of_ne_nil hne
  have ha := h a List.mem_cons_self
  cases args with
  | nil => simpa using ha
  | cons b args => simp

theorem joinAll_pair {path name : List Char} (hpath : path ≠ []) (h : Plain name) :
    joinAll [path, name] = render (isAbsolute path) (parts path ++ [name]) := by
  rw [← normalize_append hpath h]
  simp [joinAll, hpath, h.ne_nil]

/-- Names are joined one by one. -/
theorem joinAll_concat (args : List (List Char)) {name : List Char} (h : Plain name) :
    joinAll (args ++ [name]) = joinAll [joinAll args, name] := by
  have hfilter : (args ++ [name]).filter (· ≠ []) = args.filter (· ≠ []) ++ [name] := by
    simp [h.ne_nil]
  by_cases hnil : args.filter (· ≠ []) = []
  · have hdot : joinAll args = ['.'] := by rw [joinAll, hnil]
    rw [hdot, joinAll_pair (List.cons_ne_nil _ _) h, joinAll, hfilter, hnil]
    exact normalize_plain h
  · have hne := intercalate_ne_nil hnil fun a ha => of_decide_eq_true (List.mem_filter.1 ha).2
    obtain ⟨hne', habsolute, hparts⟩ := normalize_spec hne
    have hargs : joinAll args = normalize (['/'].intercalate (args.filter (· ≠ []))) := by
      rw [joinAll]
      split
      · next heq => exact absurd heq hnil
      · rfl
    have hall : joinAll (args ++ [name]) =
        normalize (['/'].intercalate (args.filter (· ≠ []) ++ [name])) := by
      rw [joinAll, hfilter]
      split
      · next heq => simp at heq
      · rfl
    rw [hall, intercalate_concat hnil, normalize_append hne h, hargs, joinAll_pair hne' h, habsolute,
      hparts]

theorem joinAll_ne_nil (args : List (List Char)) : joinAll args ≠ [] := by
  rw [joinAll]
  split
  · exact List.cons_ne_nil _ _
  · next hne =>
    exact (normalize_spec (intercalate_ne_nil hne fun a ha =>
      of_decide_eq_true (List.mem_filter.1 ha).2)).1

/-- Behind a name another one is appended. -/
theorem joinAll_eq_append (args : List (List Char)) {name name' : List Char} (h : Plain name)
    (h' : Plain name') :
    joinAll [joinAll (args ++ [name]), name'] = joinAll (args ++ [name]) ++ '/' :: name' := by
  have hpath := joinAll_ne_nil args
  have hne : parts (joinAll args) ++ [name] ≠ [] := by simp
  have hnormal : Normal (!isAbsolute (joinAll args)) (parts (joinAll args) ++ [name]) :=
    (normal_parts _).concat h.isPart (addPart_of_plain h _ _)
  rw [joinAll_concat args h, joinAll_pair hpath h, joinAll_pair (render_ne_nil hnormal hne) h',
    isAbsolute_render hnormal hne, parts_render hnormal hne, render_concat hne]

end ComputeContract.Path
