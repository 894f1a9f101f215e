import EventChains.Pattern
import Mathlib.Data.List.Chain

/-!
# Compiled patterns

A pattern that `Pattern.compile` reads starts with a named token (`tokens_of_compile`), and no two
wildcards stand side by side in it (`separated_of_compile`): a second one is refused as redundant,
also where only an ignored mark stands between the two.
-/

namespace EventChains

/-- A computation in two parts succeeds when both parts do. -/
theorem bind_eq_ok_iff {ε α β : Type} {x : Except ε α} {f : α → Except ε β} {b : β} :
    x >>= f = .ok b ↔ ∃ a, x = .ok a ∧ f a = .ok b := by
  cases x with
  | error fault => exact ⟨fun h => by contradiction, fun ⟨_, h, _⟩ => by contradiction⟩
  | ok a => exact ⟨fun h => ⟨a, rfl, h⟩, fun ⟨_, h, hb⟩ => by cases h; exact hb⟩

/-- What is made of a result comes from a result. -/
theorem map_eq_ok_iff {ε α β : Type} {x : Except ε α} {f : α → β} {b : β} :
    x.map f = .ok b ↔ ∃ a, x = .ok a ∧ f a = b := by
  cases x with
  | error fault => exact ⟨fun h => by contradiction, fun ⟨_, h, _⟩ => by contradiction⟩
  | ok a => exact ⟨fun h => ⟨a, rfl, Except.ok.inj h⟩, fun ⟨_, h, hb⟩ => by cases h; cases hb; rfl⟩

/-- A result stays when faults are put in other words. -/
theorem mapError_eq_ok_iff {ε δ α : Type} {x : Except ε α} {f : ε → δ} {a : α} :
    x.mapError f = .ok a ↔ x = .ok a := by
  cases x <;> simp [Except.mapError]

namespace Pattern

/-- No two wildcards stand side by side. -/
def Separated (tokens : List Token) : Prop :=
  tokens.IsChain fun a b => ¬ (a = .wildcard ∧ b = .wildcard)

/-- The order of the tokens does not matter for wildcards side by side. -/
theorem separated_reverse {tokens : List Token} : Separated tokens.reverse ↔ Separated tokens := by
  rw [Separated, List.isChain_reverse, Separated]
  simp only [and_comm]

/-- A named token stands well before all tokens. -/
theorem Separated.cons_named {tokens : List Token} (h : Separated tokens) (name : String)
    (edge : Edge) : Separated (.named name edge :: tokens) :=
  List.isChain_cons.2 ⟨by simp, h⟩

/-- A wildcard stands well before a token that is none. -/
theorem Separated.cons_wildcard {tokens : List Token} (h : Separated tokens)
    (hhead : tokens.head? ≠ some .wildcard) : Separated (.wildcard :: tokens) := by
  refine List.isChain_cons.2 ⟨fun token htoken hboth => hhead ?_, h⟩
  rw [← hboth.2]
  exact htoken

namespace Scan

theorem separated_addWildcard {scan later : Scan} (h : scan.addWildcard = .ok later)
    (separated : Separated scan.tokens) : Separated later.tokens := by
  unfold addWildcard at h
  split at h
  · contradiction
  · split at h
    · contradiction
    · cases h
      exact separated.cons_wildcard (by assumption)

theorem separated_addMark {scan later : Scan} {edge : Edge} (h : scan.addMark edge = .ok later)
    (separated : Separated scan.tokens) : Separated later.tokens := by
  unfold addMark at h
  split at h
  · cases h
    exact separated.cons_named _ edge
  · split at h
    · cases h
      exact separated
    · contradiction

/-- Reading one character keeps wildcards apart. -/
theorem separated_add {scan later : Scan} {c : Char} (h : scan.add c = .ok later)
    (separated : Separated scan.tokens) : Separated later.tokens := by
  unfold add at h
  dsimp only at h
  split at h
  · obtain ⟨read, hread, hlater⟩ := bind_eq_ok_iff.1 h
    cases hlater
    show Separated read.tokens
    exact separated_addWildcard hread separated
  · split at h
    · obtain ⟨read, hread, hlater⟩ := bind_eq_ok_iff.1 h
      cases hlater
      show Separated read.tokens
      exact separated_addMark hread separated
    · cases h
      exact separated

/-- Reading a text keeps wildcards apart. -/
theorem separated_foldlM {scan later : Scan} {text : List Char}
    (h : text.foldlM add scan = .ok later) (separated : Separated scan.tokens) :
    Separated later.tokens := by
  induction text generalizing scan with
  | nil =>
      cases h
      exact separated
  | cons c rest ih =>
      rw [List.foldlM_cons] at h
      obtain ⟨read, hread, hrest⟩ := bind_eq_ok_iff.1 h
      exact ih hrest (separated_add hread separated)

theorem separated_finish {scan : Scan} {pattern : Pattern} (h : scan.finish = .ok pattern)
    (separated : Separated scan.tokens) : Separated pattern.tokens := by
  unfold finish at h
  split at h
  · contradiction
  · split at h
    · contradiction
    · split at h
      · contradiction
      · split at h
        · contradiction
        · cases h
          exact separated_reverse.2 separated

/-- A whole text starts with a named token: it has tokens, and the first is no wildcard. -/
theorem tokens_of_finish {scan : Scan} {pattern : Pattern} (h : scan.finish = .ok pattern) :
    ∃ name edge following, pattern.tokens = .named name edge :: following := by
  unfold finish at h
  split at h
  · contradiction
  · split at h
    · contradiction
    · rename_i hleading
      split at h
      · contradiction
      · split at h
        · contradiction
        · rename_i hempty
          cases h
          show ∃ name edge following, scan.tokens.reverse = .named name edge :: following
          rw [← List.head?_reverse] at hleading
          cases hreverse : scan.tokens.reverse with
          | nil => simp [List.reverse_eq_nil_iff.1 hreverse] at hempty
          | cons token following =>
              cases token with
              | wildcard => simp [hreverse] at hleading
              | named name edge => exact ⟨name, edge, following, rfl⟩

end Scan

/-- A compiled pattern has no two wildcards side by side. -/
theorem separated_of_compile {source : String} {pattern : Pattern}
    (h : compile source = .ok pattern) : Separated pattern.tokens := by
  unfold compile at h
  split at h
  · contradiction
  · obtain ⟨scan, hscan, hfinish⟩ := bind_eq_ok_iff.1 h
    exact Scan.separated_finish hfinish (Scan.separated_foldlM hscan List.IsChain.nil)

/-- A compiled pattern starts with a named token. -/
theorem tokens_of_compile {source : String} {pattern : Pattern}
    (h : compile source = .ok pattern) :
    ∃ name edge following, pattern.tokens = .named name edge :: following := by
  unfold compile at h
  split at h
  · contradiction
  · obtain ⟨scan, _, hfinish⟩ := bind_eq_ok_iff.1 h
    exact Scan.tokens_of_finish hfinish

/-- A load from its begin to its end, with any events between the two. -/
def load : Pattern :=
  ⟨[.named "load" .opening, .wildcard, .named "load" .closing]⟩

theorem compile_load : compile "load+ * load-" = .ok load :=
  rfl

end Pattern

end EventChains
