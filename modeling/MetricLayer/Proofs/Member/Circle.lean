import MetricLayer.Proofs.Member.Session

/-!
# Circles of references

Evaluating a member ends, and it reports a circle of references exactly where there is reason to:

- a member that has a value leads to no circle;
- a reported circle is one, and the member leads to it;
- a member that leads to a circle has no value. It may fail for another reason that is met before.

An evaluation calls for others, each on a trail that is longer by one member (`CompileScope.Calls`).
Members that are not on the trail become fewer with each call, so the calls come to an end
(`acc_calls`), and the bound of the recursion is never what ends it.
-/

namespace MetricLayer

open Relation (ReflTransGen TransGen)

/-- Looking up a path does not fail for a circle. -/
private theorem Repository.member_ne_cyclicReference (r : Repository) (path : String)
    (circle : List String) : r.member path ≠ .error (.cyclicReference circle) := by
  intro h
  rcases error_of_member h with ⟨fault, ⟨⟩⟩ | ⟨tag, ⟨⟩⟩

namespace CompileScope

variable {scope : CompileScope} {trail : List String} {path : String} {member : Member}

/-! ## Reported circles -/

/-- Paths that refer one to the next, the last of them being the first one again and the others all
different. -/
structure IsCircle (scope : CompileScope) (circle : List String) : Prop where
  length : 2 ≤ circle.length
  closes : circle.head? = circle.getLast?
  nodup : circle.dropLast.Nodup
  chain : circle.IsChain scope.Refers

/-- A trail whose end is on it holds a circle from there on. -/
theorem IsTrail.isCircle_cycleThrough (h : scope.IsTrail trail path) (hpath : path ∈ trail) :
    scope.IsCircle (cycleThrough trail path) ∧ (cycleThrough trail path).head? = some path := by
  obtain ⟨before, after, rfl⟩ := List.append_of_mem hpath
  have hnodup := List.nodup_append.1 h.nodup
  have hbefore : ∀ p ∈ before, decide (p ≠ path) = true := fun p hp =>
    decide_eq_true (hnodup.2.2 p hp path List.mem_cons_self)
  -- A trail comes to no member twice, so it is cut at the only time that it came to `path`.
  have hcircle : cycleThrough (before ++ path :: after) path = path :: after ++ [path] := by
    rw [cycleThrough, List.dropWhile_append_of_pos hbefore, List.dropWhile_cons_of_neg (by simp)]
  rw [hcircle]
  refine ⟨⟨by simp, ?_, ?_, ?_⟩, rfl⟩
  · rw [List.getLast?_concat]
    rfl
  · rw [List.dropLast_concat]
    exact hnodup.2.1
  · have hchain := h.chain
    rw [List.append_assoc] at hchain
    exact hchain.right_of_append

/-- A member that is met again closes a circle. -/
private theorem isCircle_of_evaluateOn_of_mem {bound : Nat} {circle : List String}
    (htrail : scope.IsTrail trail member.path) (hmem : member.path ∈ trail)
    (h : scope.evaluateOn bound trail member = .error (.cyclicReference circle)) :
    scope.IsCircle circle ∧ circle.head? = some member.path := by
  rw [evaluateOn_of_mem bound hmem] at h
  obtain rfl := Error.cyclicReference.inj (Except.error.inj h)
  exact htrail.isCircle_cycleThrough hmem

/-- Where an evaluation off the trail reports a circle, so does that of a reference. -/
private theorem exists_reference_of_cyclicReference {bound : Nat} {circle : List String}
    (hmem : member.path ∉ trail)
    (h : scope.evaluateOn (bound + 1) trail member = .error (.cyclicReference circle)) :
    ∃ q ∈ scope.references member, ∃ found, scope.repository.member q = .ok found ∧
      scope.evaluateOn bound (trail ++ [member.path]) found = .error (.cyclicReference circle) := by
  rw [evaluateOn, if_neg hmem] at h
  obtain ⟨fault, hfault⟩ | ⟨q, hq, hanswer⟩ := (Resolver.asks_compile _ scope member).error _ h
  · cases hfault
  · rcases error_or_exists_of_bind hanswer with hfound | ⟨found, hfound, hreported⟩
    · exact absurd hfound (scope.repository.member_ne_cyclicReference q circle)
    · exact ⟨q, hq, found, hfound, hreported⟩

/-- A circle that an evaluation reports is one. It starts on the trail, or the member leads to its
start. -/
theorem isCircle_of_evaluateOn {bound : Nat} (hm : scope.repository.IsMember member)
    (htrail : scope.IsTrail trail member.path)
    (hbound : scope.repository.memberCount ≤ bound + trail.length) {circle : List String}
    (h : scope.evaluateOn bound trail member = .error (.cyclicReference circle)) :
    scope.IsCircle circle ∧ ∃ first, circle.head? = some first ∧
      (first ∈ trail ∨ ReflTransGen scope.Refers member.path first) := by
  -- Induction on the bound. A circle is closed by the member itself, or it is reported by the
  -- evaluation of one of its references.
  induction bound generalizing trail member with
  | zero =>
    have hmem := htrail.mem_of_memberCount_le hm.member_path (by omega)
    obtain ⟨hcircle, hfirst⟩ := isCircle_of_evaluateOn_of_mem htrail hmem h
    exact ⟨hcircle, member.path, hfirst, .inl hmem⟩
  | succ bound ih =>
    by_cases hmem : member.path ∈ trail
    · obtain ⟨hcircle, hfirst⟩ := isCircle_of_evaluateOn_of_mem htrail hmem h
      exact ⟨hcircle, member.path, hfirst, .inl hmem⟩
    · obtain ⟨q, hq, found, hfound, hreported⟩ := exists_reference_of_cyclicReference hmem h
      have hextended := htrail.extend_references hm hmem hq hfound
      obtain ⟨hcircle, first, hfirst, hstart⟩ :=
        ih ⟨q, hfound⟩ hextended (by simp; omega) hreported
      refine ⟨hcircle, first, hfirst, ?_⟩
      -- The longer trail ends with the member, which leads to what its reference leads to.
      rcases hstart with hstart | hstart
      · rcases List.mem_append.1 hstart with hstart | hstart
        · exact .inl hstart
        · obtain rfl := List.mem_singleton.1 hstart
          exact .inr .refl
      · rw [Repository.path_of_member hfound] at hstart
        exact .inr (.head ((refers_iff hm.member_path).2 hq) hstart)

/-! ## The end of an evaluation -/

/-- The evaluation of a path on a trail calls for another one: its member is not on the trail and
refers to the other path. -/
def Calls (scope : CompileScope) (next now : List String × String) : Prop :=
  now.2 ∉ now.1 ∧ next.1 = now.1 ++ [now.2] ∧ scope.Refers now.2 next.2

/-- An evaluation calls for others only finitely often in a row. -/
theorem acc_calls (h : scope.IsTrail trail path) : Acc scope.Calls (trail, path) := by
  -- The trail becomes longer with each call, and it cannot be longer than there are members.
  induction hrest : scope.repository.memberCount - trail.length generalizing trail path with
  | zero =>
    refine .intro _ fun next hcall => ?_
    obtain ⟨hpath, -, hrefers⟩ := hcall
    obtain ⟨member, hm⟩ := hrefers.exists_member
    exact absurd (h.mem_of_memberCount_le hm (by omega)) hpath
  | succ rest ih =>
    refine .intro _ fun ⟨trail', path'⟩ hcall => ?_
    obtain ⟨hpath, rfl, hrefers⟩ := hcall
    exact ih (h.extend hpath hrefers) (by simp; omega)

/-- Evaluating a member ends, and it finds circles of references: a member with a value leads to
none, a reported circle is one that the member leads to, and a member that leads to a circle has no
value. -/
theorem evaluate_finds_circles (hm : scope.repository.member path = .ok member) :
    (Acc scope.Calls ([], path) ∧ ∀ bound ≥ scope.repository.memberCount,
      ((scope.evaluateIn bound member).run.run .empty).1 = scope.evaluate member) ∧
    (∀ c, scope.evaluate member = .ok c →
      ∀ p, ReflTransGen scope.Refers path p → ¬TransGen scope.Refers p p) ∧
    (∀ circle, scope.evaluate member = .error (.cyclicReference circle) →
      scope.IsCircle circle ∧
        ∃ first, circle.head? = some first ∧ ReflTransGen scope.Refers path first) ∧
    ((∃ p, ReflTransGen scope.Refers path p ∧ TransGen scope.Refers p p) →
      ∃ e, scope.evaluate member = .error e) := by
  have hmember : scope.repository.IsMember member := ⟨path, hm⟩
  obtain rfl := Repository.path_of_member hm
  have hnone (c : Compiled) (hc : scope.evaluate member = .ok c) (p : String)
      (hp : ReflTransGen scope.Refers member.path p) : ¬TransGen scope.Refers p p := by
    rw [evaluate_eq_evaluateOn hmember] at hc
    exact (not_mem_and_not_transGen_of_evaluateOn hmember hc hp).2
  refine ⟨⟨acc_calls (scope.isTrail_nil _), fun bound hbound => ?_⟩, hnone, ?_, ?_⟩
  · rw [run_evaluateIn_empty hmember hbound, evaluate_eq_evaluateOn hmember]
    exact evaluateOn_eq_of_memberCount_le hmember (scope.isTrail_nil _) hbound le_rfl
  · intro circle hcircle
    rw [evaluate_eq_evaluateOn hmember] at hcircle
    obtain ⟨hcircle, first, hfirst, hstart⟩ :=
      isCircle_of_evaluateOn hmember (scope.isTrail_nil _) le_rfl hcircle
    exact ⟨hcircle, first, hfirst, hstart.resolve_left List.not_mem_nil⟩
  · rintro ⟨p, hp, hcircle⟩
    cases hvalue : scope.evaluate member with
    | error e => exact ⟨e, rfl⟩
    | ok c => exact absurd hcircle (hnone c hvalue p hp)

/-- Two dimensions that refer to each other, and a third one that refers to one of them. -/
private def entangled : CompileScope where
  repository := {
    models := [
      { name := "user"
        source := .table "user"
        dimensions := [
          { name := "id", primaryKey := true },
          { name := "entry", type := .date, definition := some fun _ => [.dimension "left"] },
          { name := "left", definition := some fun _ => [.column "x", .dimension "user.right"] },
          { name := "right", definition := some fun _ => [.dimension "left"] }] }]
    joins := [] }
  dialect := .ansi
  context := .null
  now := ⟨⟨2024, 1, 1⟩, .midnight⟩

/-- The month of a date whose definition leads to a circle. -/
theorem evaluate_finds_circles_entangled : ∃ member,
    entangled.repository.member "user.entry.month" = .ok member ∧
    entangled.evaluate member =
      .error (.cyclicReference ["user.left", "user.right", "user.left"]) ∧
    Acc entangled.Calls ([], "user.entry.month") ∧
    entangled.IsCircle ["user.left", "user.right", "user.left"] ∧
    ReflTransGen entangled.Refers "user.entry.month" "user.left" := by
  obtain ⟨member, hmember, hreported⟩ : ∃ member,
      entangled.repository.member "user.entry.month" = .ok member ∧
      entangled.evaluate member =
        .error (.cyclicReference ["user.left", "user.right", "user.left"]) := ⟨_, rfl, rfl⟩
  obtain ⟨⟨hends, -⟩, -, hcircles, -⟩ := evaluate_finds_circles hmember
  obtain ⟨hcircle, first, hfirst, hleads⟩ := hcircles _ hreported
  obtain rfl := Option.some.inj hfirst
  exact ⟨member, hmember, hreported, hends, hcircle, hleads⟩

end CompileScope

end MetricLayer
