import EventChains.Proofs.Pattern.Spelling

/-!
# Canonical texts of patterns

The canonical text of a pattern is one of the texts that spell its tokens (`spells_render`). So it
is read as the pattern itself, exactly if the pattern can be read from some text at all, and two
texts are read as the same pattern exactly if their canonical texts are equal
(`ofText_render_iff`).
-/

namespace EventChains.Pattern

open EventChains.Text

theorem blanks_nil : Blanks [] :=
  fun _ h => by contradiction

theorem toList_render (pattern : Pattern) :
    pattern.render.toList = pattern.tokens.flatMap fun token => token.render.toList := by
  rw [render, String.toList_join, List.flatMap_map]

/-- The canonical text has no blanks but those in names, and no ignored marks. -/
theorem spells_render (pattern : Pattern) : Spells pattern.tokens pattern.render.toList := by
  rw [toList_render]
  induction pattern.tokens with
  | nil => exact .nil blanks_nil
  | cons token rest ih =>
      rw [List.flatMap_cons]
      cases token with
      | named name edge => simpa [Token.render] using ih.named name edge blanks_nil blanks_nil
      | wildcard => exact ih.wildcard blanks_nil

/-- A pattern is read from its canonical text exactly if it is well-formed. -/
theorem ofText_render {pattern : Pattern} :
    ofText pattern.render = .ok pattern ↔ WellFormed pattern.tokens := by
  rw [ofText_eq_ok_iff]
  exact ⟨And.left, fun h => ⟨h, spells_render pattern⟩⟩

/-- Writing and reading patterns are inverse: the well-formed patterns are those that come back from
their canonical text, and those that some text is read as; and two texts are read as the same
pattern exactly if the canonical texts of what they are read as are equal. -/
theorem ofText_render_iff (pattern other : Pattern) :
    (WellFormed pattern.tokens ↔ ofText pattern.render = .ok pattern) ∧
    (WellFormed pattern.tokens ↔ ∃ source, ofText source = .ok pattern) ∧
    ∀ source source', ofText source = .ok pattern → ofText source' = .ok other →
      (ofText source = ofText source' ↔ pattern.render = other.render) := by
  refine ⟨ofText_render.symm, ⟨fun h => ⟨_, ofText_render.2 h⟩, ?_⟩, ?_⟩
  · rintro ⟨source, hsource⟩
    exact (ofText_eq_ok_iff.1 hsource).1
  · intro source source' hsource hsource'
    have hrender := ofText_render.2 (ofText_eq_ok_iff.1 hsource).1
    have hrender' := ofText_render.2 (ofText_eq_ok_iff.1 hsource').1
    rw [hsource, hsource', ← hrender, ← hrender']
    constructor
    · intro h
      rw [hrender, hrender'] at h
      cases h
      rfl
    · intro h
      rw [h]

/-- Two texts that differ in blanks and in an ignored mark. -/
theorem ofText_render_iff_load : ofText "load+ * load-" = ofText " load +*-load -" :=
  ((ofText_render_iff load load).2.2 "load+ * load-" " load +*-load -" (by decide +kernel)
    (by decide +kernel)).2 rfl

end EventChains.Pattern
