import MetricLayer.Proofs.Repository.Member
import Mathlib.Data.List.Infix

/-!
# Labels of members

The label of a member is its path with `___` for each point. Names may hold underscores, so two paths
may have one label: `a.b___c` and `a___b.c`, or `a_.b` and `a._b`. Where no name holds `___`, and no
model name ends with an underscore while a member name begins with one, the label tells the path:

- `Repository.UnambiguousNames` — the condition on the names;
- `Repository.path_eq_of_labelOf_eq` — different paths that name members have different labels.
-/

namespace MetricLayer

/-- What stands for a point in a label. -/
def labelMark : List Char := ['_', '_', '_']

/-! ## Reading a label -/

private theorem flatMap_eq_self {cs : List Char} (h : '.' ∉ cs) :
    cs.flatMap (fun c => if c = '.' then labelMark else [c]) = cs := by
  induction cs with
  | nil => rfl
  | cons c rest ih =>
    rw [List.mem_cons, not_or] at h
    rw [List.flatMap_cons, ih h.2, if_neg (Ne.symm h.1)]
    rfl

/-- The label of a path is made of the names in the path. -/
theorem toList_labelOf_joinPath {names : List String} (h : ∀ name ∈ names, '.' ∉ name.toList) :
    (labelOf (joinPath names)).toList = labelMark.intercalate (names.map String.toList) := by
  have hmark : "___".toList = labelMark := rfl
  rw [labelOf, Text.replaceChar, String.toList_ofList, joinPath, String.toList_intercalate, hmark]
  have hpoint : ".".toList = ['.'] := rfl
  rw [hpoint]
  induction names with
  | nil => rfl
  | cons name rest ih =>
    obtain ⟨hname, hrest⟩ := List.forall_mem_cons.1 h
    cases rest with
    | nil => simpa using flatMap_eq_self hname
    | cons next rest =>
      have htail := ih hrest
      simp only [List.map_cons, List.intercalate_cons_cons, List.flatMap_append] at htail ⊢
      -- Each name is kept, and the point between two of them becomes the mark.
      rw [htail, flatMap_eq_self hname]
      rfl

/-- A mark that begins within a text and a mark before it: the text holds a mark, or there are
underscores on both sides. -/
private theorem labelMark_isInfix_or {d x y : List Char} (hd : d ≠ [])
    (h : labelMark ++ x = d ++ (labelMark ++ y)) :
    labelMark <:+: d ∨ d.getLast? = some '_' ∧ x.head? = some '_' := by
  -- The text has one, two, or at least three characters, and they are underscores.
  match d with
  | [] => exact absurd rfl hd
  | [c] =>
    obtain ⟨rfl, hx⟩ : '_' = c ∧ x = '_' :: y := by simpa [labelMark] using h
    exact .inr ⟨rfl, by rw [hx]; rfl⟩
  | [c, c'] =>
    obtain ⟨rfl, rfl, hx⟩ : '_' = c ∧ '_' = c' ∧ x = '_' :: '_' :: y := by
      simpa [labelMark] using h
    exact .inr ⟨rfl, by rw [hx]; rfl⟩
  | c :: c' :: c'' :: rest =>
    obtain ⟨rfl, rfl, rfl, -⟩ : '_' = c ∧ '_' = c' ∧ '_' = c'' ∧ _ := by
      simpa [labelMark] using h
    exact .inl ⟨[], rest, rfl⟩

/-- A text before a mark can be told from the text behind it, where the texts before hold no mark and
underscores do not stand on both sides. -/
theorem eq_and_eq_of_append_labelMark {a b x y : List Char} (ha : ¬labelMark <:+: a)
    (hb : ¬labelMark <:+: b)
    (hedge : (a.getLast? ≠ some '_' ∧ b.getLast? ≠ some '_') ∨
      (x.head? ≠ some '_' ∧ y.head? ≠ some '_'))
    (h : a ++ (labelMark ++ x) = b ++ (labelMark ++ y)) : a = b ∧ x = y := by
  have hlonger {a b x y : List Char} (hb : ¬labelMark <:+: b)
      (hedge : b.getLast? ≠ some '_' ∨ x.head? ≠ some '_') {d : List Char} (hab : b = a ++ d)
      (h : labelMark ++ x = d ++ (labelMark ++ y)) : a = b ∧ x = y := by
    by_cases hd : d = []
    · subst hd
      exact ⟨by simpa using hab.symm, by simpa using h⟩
    · rcases labelMark_isInfix_or hd h with hmark | ⟨hlast, hhead⟩
      · exact absurd (hmark.trans (hab ▸ (List.suffix_append a d).isInfix)) hb
      · rcases hedge with hedge | hedge
        · refine absurd ?_ hedge
          rw [hab, List.getLast?_append, hlast]
          rfl
        · exact absurd hhead hedge
  -- One of the two texts before the mark is at least as long as the other.
  rcases List.append_eq_append_iff.1 h with ⟨d, hd, hrest⟩ | ⟨d, hd, hrest⟩
  · exact hlonger hb (hedge.imp (·.2) (·.1)) hd hrest
  · obtain ⟨hab, hxy⟩ := hlonger ha (hedge.imp (·.1) (·.2)) hd hrest
    exact ⟨hab.symm, hxy.symm⟩

/-! ## Names that leave no doubt -/

namespace Repository

/-- No name holds a mark, and there is no model name that ends with an underscore beside a member
name that begins with one. -/
structure UnambiguousNames (r : Repository) : Prop where
  model : ∀ m ∈ r.models, ¬labelMark <:+: m.name.toList
  member : ∀ m ∈ r.models, ∀ name ∈ m.memberNames, ¬labelMark <:+: name.toList
  edge : (∀ m ∈ r.models, m.name.toList.getLast? ≠ some '_') ∨
    ∀ m ∈ r.models, ∀ name ∈ m.memberNames, name.toList.head? ≠ some '_'

instance (r : Repository) : Decidable r.UnambiguousNames :=
  decidable_of_iff
    ((∀ m ∈ r.models, ¬labelMark <:+: m.name.toList) ∧
      (∀ m ∈ r.models, ∀ name ∈ m.memberNames, ¬labelMark <:+: name.toList) ∧
      ((∀ m ∈ r.models, m.name.toList.getLast? ≠ some '_') ∨
        ∀ m ∈ r.models, ∀ name ∈ m.memberNames, name.toList.head? ≠ some '_'))
    ⟨fun h => ⟨h.1, h.2.1, h.2.2⟩, fun h => ⟨h.model, h.member, h.edge⟩⟩

variable {r : Repository}

/-- The parts of a path that names a member: a model, a name that it declares and, for a member that
is derived from a dimension, a suffix that does not begin with an underscore. -/
private inductive Parts (r : Repository) : List String → Prop
  | plain {m : Model} {name : String} (hm : m ∈ r.models) (hname : name ∈ m.memberNames) :
      Parts r [m.name, name]
  | derived {m : Model} {name suffix : String} (hm : m ∈ r.models) (hname : name ∈ m.memberNames)
      (hsuffix : suffix.toList.head? ≠ some '_') : Parts r [m.name, name, suffix]

private theorem Named.parts {parts : List String} {member : Member} (h : r.Named parts member) :
    Parts r parts := by
  have hdimension {m : Model} {d : Dimension} (hd : m.dimension? d.name = some d) :
      d.name ∈ m.memberNames :=
    List.mem_append_left _ (List.mem_map_of_mem (List.mem_of_find?_eq_some hd))
  cases h with
  | dimension hm hd => exact .plain (List.mem_of_find?_eq_some hm) (hdimension hd)
  | metric hm _ hx =>
    refine .plain (List.mem_of_find?_eq_some hm) (List.mem_append_right _ ?_)
    exact List.mem_map_of_mem (List.mem_of_find?_eq_some hx)
  | granularity g hm hd =>
    exact .derived (List.mem_of_find?_eq_some hm) (hdimension hd) (by cases g <;> decide)
  | aggregate a hm hd =>
    exact .derived (List.mem_of_find?_eq_some hm) (hdimension hd) (by cases a <;> decide)

section Reading

variable (hr : r.UnambiguousNames) {m m' : Model} {n n' : String} (hm : m ∈ r.models)
  (hm' : m' ∈ r.models) (hn : n ∈ m.memberNames) (hn' : n' ∈ m'.memberNames)

include hr hm hm' hn hn'

/-- The name of the model can be read off a label. -/
private theorem UnambiguousNames.eq_of_label (hne : n.toList ≠ []) (hne' : n'.toList ≠ [])
    {x y : List Char} (h : m.name.toList ++ (labelMark ++ (n.toList ++ x)) =
      m'.name.toList ++ (labelMark ++ (n'.toList ++ y))) :
    m.name = m'.name ∧ n.toList ++ x = n'.toList ++ y := by
  have hhead {n : String} {x : List Char} (hne : n.toList ≠ [])
      (h : n.toList.head? ≠ some '_') : (n.toList ++ x).head? ≠ some '_' := by
    rwa [List.head?_append_of_ne_nil _ hne]
  have hedge := hr.edge.imp (fun hlast => And.intro (hlast m hm) (hlast m' hm')) fun hfirst =>
    And.intro (hhead (x := x) hne (hfirst m hm n hn)) (hhead (x := y) hne' (hfirst m' hm' n' hn'))
  obtain ⟨hmodel, hrest⟩ := eq_and_eq_of_append_labelMark (hr.model m hm) (hr.model m' hm') hedge h
  exact ⟨String.toList_inj.1 hmodel, hrest⟩

/-- The name of a dimension can be read off the label of what is derived from it. -/
private theorem UnambiguousNames.eq_of_derived {s s' : String} (hs : s.toList.head? ≠ some '_')
    (hs' : s'.toList.head? ≠ some '_')
    (h : n.toList ++ (labelMark ++ s.toList) = n'.toList ++ (labelMark ++ s'.toList)) :
    n = n' ∧ s = s' := by
  obtain ⟨hname, hsuffix⟩ := eq_and_eq_of_append_labelMark (hr.member m hm n hn)
    (hr.member m' hm' n' hn') (.inr ⟨hs, hs'⟩) h
  exact ⟨String.toList_inj.1 hname, String.toList_inj.1 hsuffix⟩

end Reading

/-- No declared name is the label of a derived member without its model. -/
private theorem UnambiguousNames.ne_derived (hr : r.UnambiguousNames) {m : Model} {n : String}
    (hm : m ∈ r.models) (hn : n ∈ m.memberNames) (before after : List Char) :
    n.toList ≠ before ++ (labelMark ++ after) := fun h =>
  hr.member m hm n hn ⟨before, after, by rw [h, List.append_assoc]⟩

/-- The parts of a path can be read off its label. -/
private theorem Parts.eq_of_intercalate (hr : r.UnambiguousNames) {ps qs : List String}
    (hp : Parts r ps) (hq : Parts r qs) (hps : ∀ name ∈ ps, name.toList ≠ [])
    (hqs : ∀ name ∈ qs, name.toList ≠ [])
    (h : labelMark.intercalate (ps.map String.toList) =
      labelMark.intercalate (qs.map String.toList)) : ps = qs := by
  cases hp with
  | @plain m n hm hn =>
    cases hq with
    | @plain m' n' hm' hn' =>
      obtain ⟨hmodel, hrest⟩ := hr.eq_of_label (x := []) (y := []) hm hm' hn hn'
        (hps _ (by simp)) (hqs _ (by simp)) (by simpa [List.intercalate] using h)
      -- Without a suffix what stands behind the model is the name.
      have hname : n = n' := String.toList_inj.1 (by simpa using hrest)
      rw [hmodel, hname]
    | derived hm' hn' hs' =>
      obtain ⟨-, hrest⟩ := hr.eq_of_label (x := []) hm hm' hn hn'
        (hps _ (by simp)) (hqs _ (by simp)) (by simpa [List.intercalate] using h)
      exact absurd (by simpa using hrest) (hr.ne_derived hm hn _ _)
  | derived hm hn hs =>
    cases hq with
    | plain hm' hn' =>
      obtain ⟨-, hrest⟩ := hr.eq_of_label (y := []) hm hm' hn hn'
        (hps _ (by simp)) (hqs _ (by simp)) (by simpa [List.intercalate] using h)
      exact absurd (by simpa using hrest.symm) (hr.ne_derived hm' hn' _ _)
    | derived hm' hn' hs' =>
      obtain ⟨hmodel, hrest⟩ := hr.eq_of_label hm hm' hn hn'
        (hps _ (by simp)) (hqs _ (by simp)) (by simpa [List.intercalate] using h)
      obtain ⟨hname, hsuffix⟩ := hr.eq_of_derived hm hm' hn hn' hs hs' hrest
      rw [hmodel, hname, hsuffix]

/-- Different paths that name members have different labels. -/
theorem path_eq_of_labelOf_eq (hr : r.UnambiguousNames) {p q : String} {m m' : Member}
    (hp : r.member p = .ok m) (hq : r.member q = .ok m') (h : labelOf p = labelOf q) : p = q := by
  have hne {path : String} {m : Member} (hpath : r.member path = .ok m) :
      ∀ name ∈ Text.split '.' path, name.toList ≠ [] := by
    intro name hname
    simpa using (Bool.or_eq_false_iff.1 (badName_of_member hpath hname)).1
  have hlabel (path : String) : (labelOf path).toList =
      labelMark.intercalate ((Text.split '.' path).map String.toList) := by
    rw [← toList_labelOf_joinPath fun name hname => Text.not_mem_of_mem_split hname,
      joinPath_split]
  have hparts : Text.split '.' p = Text.split '.' q := by
    refine (named_of_member hp).parts.eq_of_intercalate hr (named_of_member hq).parts (hne hp)
      (hne hq) ?_
    rw [← hlabel, ← hlabel, h]
  rw [← joinPath_split p, hparts, joinPath_split]

end Repository

end MetricLayer
