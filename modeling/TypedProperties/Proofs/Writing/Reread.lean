import TypedProperties.Proofs.Reading.Sound
import TypedProperties.Proofs.Writing.Weight

/-! When a store that has been read is written, and what is written is read: exactly which stores come
back. -/
namespace TypedProperties
namespace Store

theorem says_configuration {description : Text} (single : '\n' ∉ description) :
    Lines.Says (Text.ofString "#@configuration " ++ description ++ ['\n', '\n'])
      [Text.ofString "#@configuration " ++ Lines.uncontinued description] := by
  have e : Lines.uncontinued (Text.ofString "#@configuration " ++ description) =
      Text.ofString "#@configuration " ++ Lines.uncontinued description :=
    Lines.uncontinued_append (by decide) (by decide) description
  rw [← e]
  refine Lines.says_uncontinued ?_ ?_ ?_
  · simp only [List.mem_append, not_or]
    exact ⟨by decide, single⟩
  · rw [e]
    have role := Role.ofText_directive (Text.ofString "configuration " ++ Lines.uncontinued description)
    have other : Role.ofText (Role.commentMark :: Role.directiveMark ::
        (Text.ofString "configuration " ++ Lines.uncontinued description)) ≠ .comment := by simp [role]
    exact other
  · rw [e, Text.isBlank_append]
    have shown : Text.isBlank (Text.ofString "#@configuration ") = false := by decide
    rw [shown, Bool.false_and]

theorem isArgument_of_configured {description : Text} (single : '\n' ∉ description)
    (same : Text.stripQuotes (Text.trim (Lines.uncontinued description)) = description) :
    description.IsArgument ∧ Text.stripQuotes description = description := by
  have strip := (Text.isInfix_stripQuotes (Text.trim (Lines.uncontinued description))).sublist
  have trim := (Text.isInfix_trim (Lines.uncontinued description)).sublist
  have whole := (Lines.isPrefix_uncontinued description).sublist
  rw [same] at strip
  have unmarked := whole.antisymm (strip.trans trim)
  rw [unmarked] at same strip trim
  have trimmed := trim.antisymm strip
  rw [trimmed] at same
  exact ⟨⟨⟨trimmed, single⟩, Lines.unmarked_of_uncontinued unmarked⟩, same⟩

variable {s : Store}

theorem steps_behind_preamble {nested : Reader → Text → Outcome} {world : World} (single : '\n' ∉ s.description)
    {t : Text} {lines : List Text} (text : Lines.Says t lines) {p : Progress}
    (done : Reader.standard.steps nested world false (Reader.standard.begin none empty)
      ((Lines.significant (preamble .standard s ++ t)).map Reader.bareLine) = .ok p) :
    ∃ q : Progress, q.Steady ∧ q.store.entries = [] ∧
      Reader.standard.steps nested world false q (lines.map Reader.bareLine) = .ok p ∧
      (q.store.description = s.description →
        s.description.IsArgument ∧ Text.stripQuotes s.description = s.description) := by
  have start : (Reader.standard.begin none empty).Steady := ⟨rfl, rfl⟩
  by_cases silent : s.description = []
  · have none : preamble .standard s = [] := by simp [preamble, silent, WriteOptions.standard]
    rw [none, List.nil_append, text.significant_eq] at done
    refine ⟨_, start, rfl, done, fun _ => ?_⟩
    rw [silent]
    exact ⟨⟨⟨rfl, by simp⟩, by simp⟩, rfl⟩
  · have line : preamble .standard s = Text.ofString "#@configuration " ++ s.description ++ ['\n', '\n'] := by
      simp [preamble, silent, WriteOptions.standard]
    rw [line, ((says_configuration single).append text).significant_eq, List.singleton_append,
      List.map_cons, Reader.steps, Reader.step_config nested world .standard rfl rfl] at done
    exact ⟨_, ⟨rfl, rfl⟩, rfl, done, isArgument_of_configured single⟩

/-- A sound store is written: its preamble, and the entries, which bring back at most what they weigh. -/
theorem write_of_sound (nested : Reader → Text → Outcome) (world : World) (sound : s.Sound StandardUnits.system)
    (fits : s.FitsMemory) :
    ∃ body lines n, s.write StandardUnits.system .standard = .ok (preamble .standard s ++ body) ∧
      Weighs nested world body lines n s.entries := by
  obtain ⟨body, lines, n, written, weighs⟩ := weighs_entries nested world sound.keys sound.data fits
  refine ⟨body, lines, n, ?_, weighs⟩
  rw [write, written]
  simp [WriteOptions.standard]

/-- A store that comes back from what is written is restorable: any entry that is not would cost more
than its lines bring back. -/
theorem restorable_of_reread {world : World} (sound : s.Sound StandardUnits.system) (fits : s.FitsMemory)
    {t : Text} (written : s.write StandardUnits.system .standard = .ok t) {read : Store} {topic : Option Text}
    (done : (Reader.standard.read world (Text.encode t)).result = .ok (read, topic))
    (description : read.description = s.description)
    (entries : read.entries = rewritten StandardUnits.system .standard s.entries) : s.Restorable := by
  obtain ⟨p, stepped, -, rfl, -⟩ := Reader.result_encode_eq_ok.mp done
  obtain ⟨body, lines, n, written', weighs⟩ := write_of_sound
    (fun r path => Reader.runFile world world.nestingBound r empty path) world sound fits
  obtain rfl := Except.ok.inj (written.symm.trans written')
  obtain ⟨q, steady, nothing, rest, described⟩ := steps_behind_preamble sound.description weighs.text stepped
  have grows := Reader.grows_of_steps weighs.costs steady rest
  refine ⟨described (grows.description.symm.trans description), fun e he => ?_⟩
  by_contra lost
  have less := weighs.lt e he lost
  have weight := grows.weight
  rw [entries, weightOf_rewritten, nothing] at weight
  simp only [weightOf, List.map_nil, List.sum_nil, Nat.zero_add] at weight less
  omega

/-- What is written of a store that has been read is read again, in any surroundings, and gives the same
store with its reals in their units, exactly if neither the description of the store nor that of an entry is
read as more or less than it says, and no string opens a reference to a variant parameter. -/
theorem reread_iff (world world' : World) {bytes : Bytes} {s : Store} {topic : Option Text}
    (accepted : (Reader.standard.read world bytes).result = .ok (s, topic)) (fits : s.FitsMemory) :
    ∃ t, s.write StandardUnits.system .standard = .ok t ∧
      ((∃ read topic', (Reader.standard.read world' (Text.encode t)).result = .ok (read, topic') ∧
          read.description = s.description ∧
          read.entries = rewritten StandardUnits.system .standard s.entries) ↔
        s.Restorable) := by
  have sound : s.Sound StandardUnits.system := Reader.sound_read (r := .standard) rfl accepted
  obtain ⟨body, -, -, written, -⟩ := write_of_sound
    (fun r path => Reader.runFile world world.nestingBound r empty path) world sound fits
  refine ⟨_, written, ?_, fun restorable => ?_⟩
  · rintro ⟨read, topic', done, description, entries⟩
    exact restorable_of_reread sound fits written done description entries
  · obtain ⟨t, read, topic', written', done, -, description, entries⟩ :=
      read_write world' sound restorable fits (o := .standard) ⟨nofun, nofun⟩
    obtain rfl := Except.ok.inj (written'.symm.trans written)
    exact ⟨read, topic', done, description, entries⟩

/-- A description that ends in a mark, with a blank behind it where it is read. Where it is written there is
none, and the property that it describes does not come back. -/
theorem reread_loses_a_property :
    let bytes := Text.encode (Text.ofString "#@description a\\ \nk : integer = 1\n")
    let s := Store.empty.insert ['k'] ⟨.integer [1], .scalar, false, ['a', Lines.continuation]⟩
    let world := World.empty
    (Reader.standard.read world bytes).result = .ok (s, none) ∧ s.FitsMemory ∧
      ∃ t, s.write StandardUnits.system .standard = .ok t ∧
        ¬ ∃ read topic, (Reader.standard.read world (Text.encode t)).result = .ok (read, topic) ∧
          read.description = s.description ∧
          read.entries = rewritten StandardUnits.system .standard s.entries := by
  intro bytes s world
  have accepted : (Reader.standard.read world bytes).result = .ok (s, none) := by decide +kernel
  have fits : s.FitsMemory := by
    intro e he
    obtain rfl := List.mem_singleton.mp he
    decide
  obtain ⟨t, written, exactly⟩ := reread_iff world world accepted fits
  refine ⟨accepted, fits, t, written, fun came => ?_⟩
  exact ((exactly.mp came).data _ List.mem_cons_self).unmarked rfl

end Store
end TypedProperties
