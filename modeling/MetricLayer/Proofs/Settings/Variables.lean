import MetricLayer.Proofs.Text.Run
import MetricLayer.Settings.Basic

/-!
# Texts with references to variables

A text that refers to environment variables is written part by part: characters that stand for
themselves, dollar signs on their own, and references in their two forms. Where every part can be
told from what follows it, the text is read back as it was written. So each reference is replaced by
its value once, and no value is read again:

- `Variables.Part` — the parts of a text; `Variables.Part.EndsBefore` says where a part ends;
- `Variables.Legible` — parts that can be told apart in the text that they make;
- `Variables.chunks_written` — such a text has the chunks of its parts;
- `Variables.outcome` — the expanded text, or the first variable without a value;
- `Variables.expand_written` — a legible text is expanded to its outcome.
-/

namespace MetricLayer.Variables

/-! ## Writing -/

/-- A part of a text as it is written. -/
inductive Part
  /-- Characters other than the dollar sign. -/
  | literal (text : List Char)
  /-- A dollar sign that stands for itself. -/
  | dollar
  /-- A reference with its name between braces. -/
  | braced (name : List Char)
  /-- A reference with its name right after the dollar sign. -/
  | plain (name : List Char)
deriving DecidableEq, Repr

namespace Part

/-- The text of a part. -/
def text : Part → List Char
  | .literal text => text
  | .dollar => ['$']
  | .braced name => '$' :: '\x7b' :: (name ++ ['\x7d'])
  | .plain name => '$' :: name

/-- The variable that a part refers to. -/
def reference? : Part → Option String
  | .literal _ | .dollar => none
  | .braced name | .plain name => some (String.ofList name)

/-- What stands for a part in the expanded text. -/
def expansion (value? : String → Option String) : Part → List Char
  | .literal text => text
  | .dollar => ['$']
  | .braced name | .plain name => ((value? (String.ofList name)).getD "").toList

/-- A part does not reach into the text after it. -/
def EndsBefore (after : List Char) : Part → Prop
  | .literal text => '$' ∉ text
  | .dollar => ∀ c ∈ after.head?, c ≠ '\x7b' ∧ isName c = false
  | .braced name => '\x7d' ∉ name
  | .plain name => name ≠ [] ∧ (∀ c ∈ name, isName c = true) ∧ ∀ c ∈ after.head?, isName c = false

-- The quantifiers range over the characters of a text, not over all characters.
instance (after : List Char) : (p : Part) → Decidable (p.EndsBefore after)
  | .literal text => inferInstanceAs (Decidable ('$' ∉ text))
  | .dollar => Option.decidableForallMem after.head?
  | .braced name => inferInstanceAs (Decidable ('\x7d' ∉ name))
  | .plain name =>
    have := List.decidableBAll (fun c => isName c = true) name
    have : Decidable (∀ c ∈ after.head?, isName c = false) := Option.decidableForallMem after.head?
    inferInstanceAs (Decidable (name ≠ [] ∧ _ ∧ _))

/-- The chunks that a part is read as. -/
def chunks : Part → List Chunk
  | .literal text => text.map .literal
  | .dollar => [.literal '$']
  | .braced name | .plain name => [.reference name]

end Part

/-- The text of several parts. -/
def written (parts : List Part) : List Char := parts.flatMap Part.text

/-- Every part ends where it should. -/
def Legible : List Part → Prop
  | [] => True
  | p :: rest => p.EndsBefore (written rest) ∧ Legible rest

instance : (parts : List Part) → Decidable (Legible parts)
  | [] => .isTrue trivial
  | p :: rest =>
    have := instDecidableLegible rest
    inferInstanceAs (Decidable (p.EndsBefore (written rest) ∧ Legible rest))

/-- The expanded text of several parts, or the first variable without a value. -/
def outcome (value? : String → Option String) (parts : List Part) : Except String String :=
  match (parts.filterMap Part.reference?).find? fun name => (value? name).isNone with
  | some name => .error name
  | none => .ok (String.ofList (parts.flatMap (Part.expansion value?)))

/-! ## Reading back -/

/-- A character other than the dollar sign stands for itself. -/
theorem chunks_of_ne {c : Char} (h : c ≠ '$') (rest : List Char) :
    chunks (c :: rest) = .literal c :: chunks rest := by
  rw [chunks]
  · exact fun _ hc => absurd hc h
  · exact h

/-- A brace right after a dollar sign makes a reference. -/
theorem chunks_brace (rest : List Char) : chunks ('$' :: '\x7b' :: rest) =
    .reference (rest.takeWhile isBraced) :: chunks ((rest.dropWhile isBraced).drop 1) := by
  rw [chunks]

/-- Without a brace, the characters of a name right after a dollar sign make a reference. -/
theorem chunks_dollar {rest : List Char} (h : ∀ c ∈ rest.head?, c ≠ '\x7b') :
    chunks ('$' :: rest) =
      if (rest.takeWhile isName).isEmpty then .literal '$' :: chunks rest
      else .reference (rest.takeWhile isName) :: chunks (rest.dropWhile isName) := by
  rw [chunks]
  rintro rest' rfl
  exact h '\x7b' rfl rfl

/-- Every part is read as its own chunks, whatever follows it. -/
theorem chunks_append {p : Part} {after : List Char} (h : p.EndsBefore after) :
    chunks (p.text ++ after) = p.chunks ++ chunks after := by
  cases p with
  | literal text =>
    induction text with
    | nil => rfl
    | cons c rest ih =>
      obtain ⟨hc, hrest⟩ := List.ne_and_not_mem_of_not_mem_cons h
      exact (chunks_of_ne hc.symm _).trans (congrArg _ (ih hrest))
  | dollar =>
    -- Neither form of a reference goes on behind the dollar sign.
    have hname : ([] ++ after).takeWhile isName = [] :=
      Text.takeWhile_append_of_stops (List.forall_mem_nil _) fun c hc => (h c hc).2
    change chunks ('$' :: after) = .literal '$' :: chunks after
    rw [List.nil_append] at hname
    rw [chunks_dollar fun c hc => (h c hc).1, hname]
    rfl
  | braced name =>
    have hname : ∀ c ∈ name, isBraced c = true := by
      intro c hc
      exact decide_eq_true (ne_of_mem_of_not_mem hc h)
    have hclosed : ∀ c ∈ ('\x7d' :: after).head?, isBraced c = false := by
      rintro _ ⟨⟩
      rfl
    have htext : (Part.braced name).text ++ after = '$' :: '\x7b' :: (name ++ '\x7d' :: after) := by
      simp [Part.text]
    rw [htext, chunks_brace, Text.takeWhile_append_of_stops hname hclosed,
      Text.dropWhile_append_of_stops hname hclosed]
    rfl
  | plain name =>
    obtain ⟨hne, hname, hend⟩ := h
    -- A name does not begin with a brace, so the reference is not of the other form.
    have hbrace : ∀ c ∈ (name ++ after).head?, c ≠ '\x7b' := by
      obtain ⟨first, others, rfl⟩ := List.exists_cons_of_ne_nil hne
      rintro _ ⟨⟩ rfl
      exact absurd (hname _ List.mem_cons_self) (by decide +kernel)
    change chunks ('$' :: (name ++ after)) = .reference name :: chunks after
    rw [chunks_dollar hbrace, Text.takeWhile_append_of_stops hname hend,
      Text.dropWhile_append_of_stops hname hend, if_neg (by simpa using hne)]

/-- A legible text is read as it was written. -/
theorem chunks_written {parts : List Part} (h : Legible parts) :
    chunks (written parts) = parts.flatMap Part.chunks := by
  induction parts with
  | nil => rw [written, List.flatMap_nil, chunks, List.flatMap_nil]
  | cons p rest ih =>
    rw [written, List.flatMap_cons, List.flatMap_cons, ← ih h.2]
    exact chunks_append h.1

/-! ## Replacing -/

/-- The variable that a chunk refers to. -/
def Chunk.reference? : Chunk → Option String
  | .literal _ => none
  | .reference name => some (String.ofList name)

/-- What stands for a chunk in the expanded text. -/
def Chunk.expansion (value? : String → Option String) : Chunk → List Char
  | .literal c => [c]
  | .reference name => ((value? (String.ofList name)).getD "").toList

/-- Chunks are replaced one after the other, up to the first variable without a value. -/
theorem mapM_expandChunk (value? : String → Option String) (cs : List Chunk) :
    (cs.mapM (expandChunk value?)).map List.flatten =
      match (cs.filterMap Chunk.reference?).find? fun name => (value? name).isNone with
      | some name => .error name
      | none => .ok (cs.flatMap (Chunk.expansion value?)) := by
  induction cs with
  | nil => rfl
  | cons c rest ih =>
    -- Chunks are put together after all of them are known, but may as well be as they come.
    have hcons : ((c :: rest).mapM (expandChunk value?)).map List.flatten =
        expandChunk value? c >>= fun text =>
          ((rest.mapM (expandChunk value?)).map List.flatten).map (text ++ ·) := by
      rw [List.mapM_cons]
      cases expandChunk value? c with
      | error name => rfl
      | ok text => cases rest.mapM (expandChunk value?) <;> rfl
    rw [hcons, ih]
    cases c with
    | literal c =>
      rw [List.filterMap_cons_none rfl, List.flatMap_cons]
      cases (rest.filterMap Chunk.reference?).find? _ <;> rfl
    | reference name =>
      rw [List.filterMap_cons_some (f := Chunk.reference?) rfl, List.find?_cons, List.flatMap_cons,
        expandChunk, Chunk.expansion]
      cases value? (String.ofList name) with
      | none => rfl
      | some value => cases (rest.filterMap Chunk.reference?).find? _ <;> rfl

/-- The chunks of a part refer to its variable. -/
private theorem reference?_chunks (p : Part) :
    p.chunks.filterMap Chunk.reference? = p.reference?.toList := by
  cases p with
  | literal text => simp [Part.chunks, Part.reference?, Chunk.reference?, Function.comp_def]
  | dollar | braced name | plain name => rfl

/-- The chunks of a part are replaced by what stands for the part. -/
private theorem expansion_chunks (value? : String → Option String) (p : Part) :
    p.chunks.flatMap (Chunk.expansion value?) = p.expansion value? := by
  cases p with
  | literal text => simp [Part.chunks, Part.expansion, Chunk.expansion, List.flatMap_map]
  | dollar => rfl
  | braced name | plain name => simp [Part.chunks, Part.expansion, Chunk.expansion]

/-- Every part of a legible text is replaced once. -/
theorem expand_eq_outcome (value? : String → Option String) {parts : List Part}
    (h : Legible parts) :
    expand value? (String.ofList (written parts)) = outcome value? parts := by
  have hreferences : (parts.flatMap Part.chunks).filterMap Chunk.reference? =
      parts.filterMap Part.reference? := by
    rw [List.filterMap_flatMap, List.filterMap_eq_flatMap_toList]
    exact List.flatMap_congr fun p _ => reference?_chunks p
  have hexpansion : (parts.flatMap Part.chunks).flatMap (Chunk.expansion value?) =
      parts.flatMap (Part.expansion value?) := by
    rw [List.flatMap_assoc]
    exact List.flatMap_congr fun p _ => expansion_chunks value? p
  have hexpand (text : String) : expand value? text =
      ((chunks text.toList).mapM (expandChunk value?)).map List.flatten >>= fun cs =>
        .ok (String.ofList cs) := by
    unfold expand
    cases (chunks text.toList).mapM (expandChunk value?) <;> rfl
  -- The written text falls into the chunks of its parts again.
  rw [hexpand, String.toList_ofList, chunks_written h, mapM_expandChunk, hreferences, hexpansion,
    outcome]
  cases (parts.filterMap Part.reference?).find? _ <;> rfl

/-! ## Resolving -/

/-- Chunks depend on the variables that they refer to. -/
private theorem mapM_expandChunk_congr {f g : String → Option String} {cs : List Chunk}
    (h : ∀ name ∈ cs.filterMap Chunk.reference?, f name = g name) :
    cs.mapM (expandChunk f) = cs.mapM (expandChunk g) := by
  induction cs with
  | nil => rfl
  | cons c rest ih =>
    cases c with
    | literal c =>
      rw [List.mapM_cons, List.mapM_cons, ih h]
      rfl
    | reference name =>
      obtain ⟨hname, hrest⟩ := List.forall_mem_cons.1 h
      rw [List.mapM_cons, List.mapM_cons, ih hrest, expandChunk, expandChunk, hname]

/-- An expanded text depends on the variables that the text refers to, and on no others. -/
theorem expand_congr {f g : String → Option String} {text : String}
    (h : ∀ name ∈ references text, f name = g name) : expand f text = expand g text := by
  have hreferences : references text = (chunks text.toList).filterMap Chunk.reference? := by
    apply List.filterMap_congr
    intro c _
    cases c <;> rfl
  rw [hreferences] at h
  rw [expand, expand, mapM_expandChunk_congr h]

/-- What was noted for a name is found. -/
private theorem join_lookup_map (value : String → Option String) {names : List String}
    {name : String} (h : name ∈ names) :
    ((names.map fun name => (name, value name)).lookup name).join = value name := by
  induction names with
  | nil => cases h
  | cons first rest ih =>
    rw [List.map_cons]
    by_cases hfirst : name = first
    · rw [hfirst, List.lookup_cons_self]
      rfl
    · rw [List.lookup_cons, beq_false_of_ne hfirst]
      exact ih (List.mem_of_ne_of_mem hfirst h)

/-- The path of a schema file is expanded with the values of the variables of the surroundings. -/
theorem run_resolve (host : Host Id) (path : String) :
    (SchemaSettings.resolve ⟨some path⟩ host).run =
      ((expand host.value? path).map some).mapError SettingsError.missingVariable := by
  let value (name : String) : Option String := host.value? name
  have hexpand : expand (fun name => (((references path).map fun name =>
      (name, value name)).lookup name).join) path = expand host.value? path :=
    expand_congr fun _ hname => join_lookup_map value hname
  -- The surroundings answer at once, so asking for all variables first changes nothing.
  change ((references path).mapM (fun name => (pure (name, value name) :
    ExceptT SettingsError Id (String × Option String))) >>= fun values => do
      return some (← (expand (fun name => (values.lookup name).join) path).mapError
        SettingsError.missingVariable)).run = _
  rw [List.mapM_pure, pure_bind, hexpand]
  cases expand host.value? path <;> rfl

/-- A legible text keeps everything but its references, each of which is replaced by the value of
its variable once and as it is. Where variables have no value, the first of them is reported. So it
is for the path of the schema file. -/
theorem expand_written (value? : String → Option String) {parts : List Part} (h : Legible parts) :
    expand value? (String.ofList (written parts)) = outcome value? parts ∧
      ∀ host : Host Id, (∀ name, host.value? name = value? name) →
        (SchemaSettings.resolve ⟨some (String.ofList (written parts))⟩ host).run =
          ((outcome value? parts).map some).mapError SettingsError.missingVariable := by
  have hexpand := expand_eq_outcome value? h
  refine ⟨hexpand, ?_⟩
  intro host hhost
  have hvalue : host.value? = value? := funext hhost
  rw [run_resolve, hvalue, hexpand]

/-- References touch each other and the end of the text, a value looks like a reference, and two
variables have no value. -/
theorem expand_written_touching :
    let value? (name : String) : Option String :=
      if name = "A" then some "$\x7bB\x7d$" else if name = "B_1" then some "b" else none
    let host : Host Id := ⟨fun _ => .missing, value?, none⟩
    expand value? "$A$\x7bB_1\x7d$$-$B_1" = .ok "$\x7bB\x7d$b$$-b" ∧
      (SchemaSettings.resolve ⟨some "$A$\x7bB_1\x7d$$-$B_1"⟩ host).run =
        .ok (some "$\x7bB\x7d$b$$-b") ∧
      expand value? "$A/$\x7b\x7d$B" = .error "" := by
  intro value? host
  have hset : Legible [.plain ['A'], .braced ['B', '_', '1'], .dollar, .dollar, .literal ['-'],
      .plain ['B', '_', '1']] := by decide +kernel
  have hunset : Legible [.plain ['A'], .literal ['/'], .braced [], .plain ['B']] := by
    decide +kernel
  have houtcome : outcome value? [.plain ['A'], .braced ['B', '_', '1'], .dollar, .dollar,
      .literal ['-'], .plain ['B', '_', '1']] = .ok "$\x7bB\x7d$b$$-b" := by decide +kernel
  obtain ⟨hexpand, hresolve⟩ := expand_written value? hset
  exact ⟨hexpand.trans houtcome, (hresolve host fun _ => rfl).trans (by rw [houtcome]; rfl),
    (expand_written value? hunset).1.trans (by decide +kernel)⟩

end MetricLayer.Variables
