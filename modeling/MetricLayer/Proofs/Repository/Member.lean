import MetricLayer.Proofs.Repository.File

/-!
# Paths of members

A path is divided at its points, and the points put back between the parts give the path again. So a
path names the member whose path it is, and no two members share a path:

- `Repository.path_of_member` — a member has the path that names it;
- `Repository.error_of_member` — the errors of paths that name no member;
- `Repository.IsMember.member_dimension` — with a member that is derived from a dimension, a repository also
  names the dimension;
- `Repository.exists_dimension_of_key` — over validated declarations the key of a model is named as
  a dimension.
-/

namespace MetricLayer

/-! ## Dividing at points -/

namespace Text

/-- The splitting of a path is the one of the list library. -/
private theorem splitAt_eq_splitOn (separator : Char) (cs : List Char) :
    splitAt separator cs = cs.splitOn separator := by
  induction cs with
  | nil => rw [splitAt, List.splitOn_nil]
  | cons c rest ih =>
    rw [splitAt, ih, List.splitOn_cons_eq_if_modifyHead]
    cases hsplit : rest.splitOn separator with
    | nil => exact absurd hsplit (List.splitOn_ne_nil separator rest)
    | cons part parts => by_cases hc : c = separator <;> simp [hc]

private theorem not_mem_of_mem_splitAt {separator : Char} {cs part : List Char}
    (h : part ∈ splitAt separator cs) : separator ∉ part := by
  induction cs generalizing part with
  | nil =>
    obtain rfl : part = [] := by simpa [splitAt] using h
    exact List.not_mem_nil
  | cons c rest ih =>
    rw [splitAt] at h
    cases hsplit : splitAt separator rest with
    | nil =>
      rw [splitAt_eq_splitOn] at hsplit
      exact absurd hsplit (List.splitOn_ne_nil separator rest)
    | cons first parts =>
      simp only [hsplit] at h ih
      -- At a separator a new part begins, any other character goes to the first part.
      split_ifs at h with hc
      · rcases List.mem_cons.1 h with rfl | h
        · exact List.not_mem_nil
        · exact ih h
      · rcases List.mem_cons.1 h with rfl | h
        · simpa [Ne.symm hc] using ih List.mem_cons_self
        · exact ih (List.mem_cons_of_mem _ h)

/-- The parts of a text do not hold the character at which it is divided. -/
theorem not_mem_of_mem_split {separator : Char} {s part : String} (h : part ∈ split separator s) :
    separator ∉ part.toList := by
  obtain ⟨cs, hcs, rfl⟩ := List.mem_map.1 h
  rw [String.toList_ofList]
  exact not_mem_of_mem_splitAt hcs

end Text

/-- The parts of a path, with points between them, are the path. -/
theorem joinPath_split (path : String) : joinPath (Text.split '.' path) = path := by
  apply String.toList_inj.1
  have hparts : (Text.split '.' path).map String.toList = path.toList.splitOn '.' := by
    rw [← Text.splitAt_eq_splitOn, Text.split, List.map_map]
    simp [Function.comp_def]
  rw [joinPath, String.toList_intercalate, hparts]
  exact List.intercalate_splitOn '.'

/-- Names without points are the parts of the path that they make. -/
theorem split_joinPath {names : List String} (hne : names ≠ [])
    (h : ∀ name ∈ names, '.' ∉ name.toList) : Text.split '.' (joinPath names) = names := by
  have hmap : ∀ cs ∈ names.map String.toList, '.' ∉ cs := by
    intro cs hcs
    obtain ⟨name, hname, rfl⟩ := List.mem_map.1 hcs
    exact h name hname
  rw [Text.split, Text.splitAt_eq_splitOn, joinPath, String.toList_intercalate]
  have hsplit := List.splitOn_intercalate '.' hmap (by simpa using hne)
  have hpoint : ".".toList = ['.'] := rfl
  rw [hpoint, hsplit, List.map_map]
  simp [Function.comp_def]

/-! ## What a path names -/

namespace Repository

variable {r : Repository} {path : String}

/-- Some path names the member. -/
def IsMember (r : Repository) (m : Member) : Prop := ∃ path, r.member path = .ok m

/-- The member that two or three names make a path of. -/
inductive Named (r : Repository) : List String → Member → Prop
  | dimension {m : Model} {d : Dimension} (hm : r.model? m.name = some m)
      (hd : m.dimension? d.name = some d) : Named r [m.name, d.name] (.dimension m d)
  | metric {m : Model} {x : Metric} (hm : r.model? m.name = some m)
      (hd : m.dimension? x.name = none) (hx : m.metric? x.name = some x) :
      Named r [m.name, x.name] (.metric m x)
  | granularity {m : Model} {d : Dimension} (g : Granularity) (hm : r.model? m.name = some m)
      (hd : m.dimension? d.name = some d) : Named r [m.name, d.name, g.tag] (.granularity m d g)
  | aggregate {m : Model} {d : Dimension} (a : Aggregate) (hm : r.model? m.name = some m)
      (hd : m.dimension? d.name = some d) : Named r [m.name, d.name, a.suffix] (.aggregate m d a)

/-- A model found under a name has that name. -/
theorem name_of_model? {name : String} {m : Model} (h : r.model? name = some m) : m.name = name := by
  simpa using List.find?_some h

theorem name_of_dimension? {m : Model} {name : String} {d : Dimension}
    (h : m.dimension? name = some d) : d.name = name := by
  simpa using List.find?_some h

private theorem named_of_plainMember {m : Model} {name : String} {member : Member}
    (hm : r.model? m.name = some m) (h : plainMember path m name = .ok member) :
    r.Named [m.name, name] member := by
  unfold plainMember at h
  cases hd : m.dimension? name with
  | some d =>
    rw [hd] at h
    obtain rfl := Except.ok.inj h
    have hname := name_of_dimension? hd
    subst hname
    exact .dimension hm hd
  | none =>
    rw [hd] at h
    cases hx : m.metric? name with
    | none => rw [hx] at h; cases h
    | some x =>
      rw [hx] at h
      obtain rfl := Except.ok.inj h
      have hname : x.name = name := by simpa using List.find?_some hx
      subst hname
      exact .metric hm hd hx

private theorem named_of_derivedMember {m : Model} {name suffix : String} {member : Member}
    (hm : r.model? m.name = some m) (h : derivedMember path m name suffix = .ok member) :
    r.Named [m.name, name, suffix] member := by
  unfold derivedMember at h
  cases hd : m.dimension? name with
  | none => rw [hd] at h; cases h
  | some d =>
    have hname := name_of_dimension? hd
    subst hname
    rw [hd] at h
    dsimp only at h
    -- The suffix spells the aggregate or the granularity that is found for it.
    split_ifs at h with hmark
    · cases ha : Aggregate.ofSuffix? suffix with
      | none => rw [ha] at h; cases h
      | some a =>
        rw [ha] at h
        obtain rfl := Except.ok.inj h
        have hsuffix : a.suffix = suffix := by simpa using List.find?_some ha
        subst hsuffix
        exact .aggregate a hm hd
    · obtain ⟨g, hg, h⟩ := exists_ok_of_bind h
      split_ifs at h
      obtain rfl := Except.ok.inj h
      have htag : g.tag = suffix := by
        unfold Granularity.parse at hg
        cases hfind : Granularity.ofTag? suffix with
        | none => rw [hfind] at hg; cases hg
        | some g' =>
          rw [hfind] at hg
          obtain rfl := Except.ok.inj hg
          simpa using List.find?_some hfind
      subst htag
      exact .granularity g hm hd

/-- The parts of a path that names a member can all be names. -/
theorem badName_of_member {member : Member} (h : r.member path = .ok member) {part : String}
    (hpart : part ∈ Text.split '.' path) : badName part = false := by
  have hpoint := Text.not_mem_of_mem_split hpart
  unfold Repository.member at h
  dsimp only at h
  split_ifs at h with hempty
  have hpartEmpty : part.isEmpty = false := by
    rw [List.any_eq_true] at hempty
    exact Bool.eq_false_iff.2 fun h => hempty ⟨part, hpart, h⟩
  simp [badName, hpartEmpty, hpoint]

/-- A path names a member by its parts. -/
theorem named_of_member {member : Member} (h : r.member path = .ok member) :
    r.Named (Text.split '.' path) member := by
  unfold Repository.member at h
  dsimp only at h
  split_ifs at h
  split at h
  · rename_i modelName name hparts
    rw [hparts]
    cases hm : r.model? modelName with
    | none => rw [hm] at h; cases h
    | some m =>
      have hname := name_of_model? hm
      subst hname
      rw [hm] at h
      exact named_of_plainMember hm h
  · rename_i modelName name suffix hparts
    rw [hparts]
    cases hm : r.model? modelName with
    | none => rw [hm] at h; cases h
    | some m =>
      have hname := name_of_model? hm
      subst hname
      rw [hm] at h
      exact named_of_derivedMember hm h
  · cases h

/-- A member whose model and definition are those of a repository. -/
def Declares (r : Repository) : Member → Prop
  | .dimension m d | .granularity m d _ | .aggregate m d _ => m ∈ r.models ∧ d ∈ m.dimensions
  | .metric m x => m ∈ r.models ∧ x ∈ m.metrics

/-- A path names a declared member. -/
theorem declares_of_member {member : Member} (h : r.member path = .ok member) :
    r.Declares member := by
  have hnamed := named_of_member h
  generalize Text.split '.' path = parts at hnamed
  cases hnamed with
  | dimension hm hd | granularity g hm hd | aggregate a hm hd =>
    exact ⟨List.mem_of_find?_eq_some hm, List.mem_of_find?_eq_some hd⟩
  | metric hm hd hx => exact ⟨List.mem_of_find?_eq_some hm, List.mem_of_find?_eq_some hx⟩

/-- The member that a path names has this path. -/
theorem path_of_member {member : Member} (h : r.member path = .ok member) : member.path = path := by
  have hnamed := named_of_member h
  rw [← joinPath_split path]
  generalize Text.split '.' path = parts at hnamed
  cases hnamed <;> rfl

/-- A two-part path that names no member fails with the path it was given. -/
private theorem error_of_plainMember {m : Model} {name : String} {e : Error}
    (h : plainMember path m name = .error e) : ∃ fault, e = .memberNotFound path fault := by
  unfold plainMember at h
  split at h
  · cases h
  · cases h
  · exact ⟨_, (Except.error.inj h).symm⟩

private theorem error_of_derivedMember {m : Model} {name suffix : String} {e : Error}
    (h : derivedMember path m name suffix = .error e) :
    (∃ fault, e = .memberNotFound path fault) ∨ e = .unknownGranularity suffix := by
  unfold derivedMember at h
  split at h
  · split_ifs at h
    · split at h
      · cases h
      · exact .inl ⟨_, (Except.error.inj h).symm⟩
    · rcases error_or_exists_of_bind h with hparse | ⟨g, -, h⟩
      · unfold Granularity.parse at hparse
        split at hparse
        · cases hparse
        · exact .inr (Except.error.inj hparse).symm
      · split_ifs at h
        · cases h
        · exact .inl ⟨_, (Except.error.inj h).symm⟩
  · exact .inl ⟨_, (Except.error.inj h).symm⟩

/-- A path that names no member is named by the error, unless the error names a granularity that is
none. -/
theorem error_of_member {e : Error} (h : r.member path = .error e) :
    (∃ fault, e = .memberNotFound path fault) ∨ ∃ tag, e = .unknownGranularity tag := by
  unfold member at h
  extract_lets parts model at h
  have hmodel {name : String} (h : model name = .error e) :
      ∃ fault, e = .memberNotFound path fault := by
    dsimp only [model] at h
    split at h
    · cases h
    · exact ⟨_, (Except.error.inj h).symm⟩
  -- Every way to fail names the path, but for a suffix that is no granularity.
  split_ifs at h
  · exact .inl ⟨_, (Except.error.inj h).symm⟩
  · dsimp only [parts] at h
    split at h
    · rcases error_or_exists_of_bind h with h | ⟨m, -, h⟩
      · exact .inl (hmodel h)
      · exact .inl (error_of_plainMember h)
    · rcases error_or_exists_of_bind h with h | ⟨m, -, h⟩
      · exact .inl (hmodel h)
      · exact (error_of_derivedMember h).imp_right fun h => ⟨_, h⟩
    · exact .inl ⟨_, (Except.error.inj h).symm⟩

/-- An accepted name has no dot and is not empty. -/
private theorem notMem_of_badName {name : String} (h : badName name = false) :
    '.' ∉ name.toList ∧ name.isEmpty = false := by
  obtain ⟨hempty, hpoint⟩ := Bool.or_eq_false_iff.1 h
  exact ⟨by simpa using hpoint, hempty⟩

section Names

variable {m : Model} {name : String} (hm : r.model? m.name = some m)
  (hmodel : badName m.name = false) (hname : badName name = false)

include hm hmodel hname

/-- A path of two good names leads to what the second one means in the model. -/
theorem member_pair : r.member (joinPath [m.name, name]) =
    plainMember (joinPath [m.name, name]) m name := by
  have hsplit : Text.split '.' (joinPath [m.name, name]) = _ := split_joinPath (by simp)
    (by simp [notMem_of_badName hmodel, notMem_of_badName hname])
  unfold Repository.member
  dsimp only
  rw [hsplit]
  simp only [List.any_cons, List.any_nil, notMem_of_badName hmodel, notMem_of_badName hname,
    Bool.or_false, Bool.false_eq_true, if_false, hm]
  rfl

/-- A path of three good names leads to what the last two mean in the model. -/
theorem member_triple {suffix : String} (hsuffix : badName suffix = false) :
    r.member (joinPath [m.name, name, suffix]) =
      derivedMember (joinPath [m.name, name, suffix]) m name suffix := by
  have hsplit : Text.split '.' (joinPath [m.name, name, suffix]) = _ := split_joinPath (by simp)
    (by simp [notMem_of_badName hmodel, notMem_of_badName hname, notMem_of_badName hsuffix])
  unfold Repository.member
  dsimp only
  rw [hsplit]
  simp only [List.any_cons, List.any_nil, notMem_of_badName hmodel, notMem_of_badName hname,
    notMem_of_badName hsuffix, Bool.or_false, Bool.false_eq_true, if_false, hm]
  rfl

end Names

/-- Two names without points that belong to a model and a dimension of it name the dimension. -/
theorem member_dimension_of_names {m : Model} {d : Dimension}
    (hm : r.model? m.name = some m) (hd : m.dimension? d.name = some d)
    (hnames : ∀ name ∈ [m.name, d.name], badName name = false) :
    r.member (joinPath [m.name, d.name]) = .ok (.dimension m d) := by
  rw [member_pair hm (hnames _ (by simp)) (hnames _ (by simp)), plainMember, hd]

/-- The path of a member names it. -/
theorem IsMember.member_path {member : Member} (h : r.IsMember member) :
    r.member member.path = .ok member := by
  obtain ⟨path, hpath⟩ := h
  rwa [path_of_member hpath]

/-- Below a member that is derived from a dimension stands the dimension. -/
theorem IsMember.member_dimension {m : Model} {d : Dimension} {member : Member}
    (h : r.IsMember member)
    (hmember : (∃ g, member = .granularity m d g) ∨ ∃ a, member = .aggregate m d a) :
    r.member (Member.dimension m d).path = .ok (.dimension m d) := by
  obtain ⟨path, h⟩ := h
  have hnamed := named_of_member h
  have hparts (part : String) (hpart : part ∈ Text.split '.' path) : badName part = false :=
    badName_of_member h hpart
  generalize Text.split '.' path = parts at hnamed hparts
  rcases hmember with ⟨g, rfl⟩ | ⟨a, rfl⟩
  · obtain _ | _ | ⟨_, hm, hd⟩ := hnamed
    exact member_dimension_of_names hm hd fun name hname => hparts name (by grind)
  · obtain _ | _ | _ | ⟨_, hm, hd⟩ := hnamed
    exact member_dimension_of_names hm hd fun name hname => hparts name (by grind)

/-! ## Keys -/

/-- Every declared model has a key. -/
theorem exists_key_of_build {models : List Model} {joins : List Join}
    (hbuild : build models joins = .ok r) {m : Model} (hm : m ∈ r.models) :
    ∃ key, m.primaryKey? = some key := by
  have hkeys := (wellFormed_of_build hbuild).key m hm
  -- One dimension is a key, so one is found.
  have hpos : 0 < m.dimensions.countP (·.primaryKey) := by omega
  obtain ⟨key, hmem, hkey⟩ := List.countP_pos_iff.1 hpos
  exact Option.isSome_iff_exists.1 (List.find?_isSome.2 ⟨key, hmem, hkey⟩)

/-- The name of a model and that of its key name a dimension of the model. -/
theorem exists_dimension_of_key {models : List Model} {joins : List Join}
    (hbuild : build models joins = .ok r) {name : String} {m : Model} {key : Dimension}
    (hm : r.model? name = some m) (hkey : m.primaryKey? = some key) :
    ∃ d, r.member (joinPath [name, key.name]) = .ok (.dimension m d) := by
  have hformed := wellFormed_of_build hbuild
  have hmodel : m ∈ r.models := List.mem_of_find?_eq_some hm
  have hmem : key ∈ m.dimensions := List.mem_of_find?_eq_some hkey
  -- Some dimension is found under the name of the key, be it the key or another one.
  obtain ⟨d, hd⟩ : ∃ d, m.dimension? key.name = some d :=
    Option.isSome_iff_exists.1 (List.find?_isSome.2 ⟨key, hmem, by simp⟩)
  have hdname := name_of_dimension? hd
  have hmname := name_of_model? hm
  subst hmname
  rw [← hdname] at hd ⊢
  refine ⟨d, member_dimension_of_names hm hd ?_⟩
  have hgood : IsName m.name := hformed.modelName m hmodel
  have hkeyname : IsName key.name :=
    hformed.memberName m hmodel _ (List.mem_append_left _ (List.mem_map_of_mem hmem))
  simpa [hdname, badName_eq_false_iff] using And.intro hgood hkeyname

end Repository

end MetricLayer
