import EventChains.Proofs.Findings
import EventChains.Proofs.Matching.Starts
import EventChains.Proofs.StableSort

/-!
# Findings summarise the chains found

`summary` says in one step what findings are after any calls: of all chains found so far the first
one of each span, with the label of the latest one, sorted by start time. `Searched.summarises` says
that the calls keep to it although they look chains up in places that are only renewed between
calls, and sort only when there is something new. So a call that is repeated changes nothing.
-/

namespace EventChains.Findings

open EventChains.Matching

variable {trace : Trace} {rule : RepeatRule} {places : Std.HashMap (Nat × Nat) Nat}
  {chains found more : List Chain} {chain other : Chain} {findings : Findings}

/-- Whether two chains have the same first and the same last event. -/
def sameSpan (a b : Chain) : Bool :=
  a.span? == b.span?

/-- Whether none of some chains has the span of a chain. -/
def unknown (chains : List Chain) (chain : Chain) : Bool :=
  !chains.any (sameSpan chain)

/-- The label of the latest one of some chains that has the span of a chain. -/
def latestLabel? (found : List Chain) (chain : Chain) : Option String :=
  (found.filter (sameSpan chain)).getLast?.map (·.label)

/-- A chain with the latest label of its span, if there is one. -/
def latest (found : List Chain) (chain : Chain) : Chain :=
  { chain with label := (latestLabel? found chain).getD chain.label }

/-- The first chain of each span, with the label of the latest one. -/
def merged (found : List Chain) : List Chain :=
  (found.eraseDupsBy sameSpan).map (latest found)

/-- The first chain of each span, with the label of the latest one, in the order of their start
times. Chains that start together are in the order in which they were found. -/
def summary (found : List Chain) : List Chain :=
  (merged found).mergeSort inOrder

/-- The places of chains are exactly those where their spans are. -/
def Indexes (places : Std.HashMap (Nat × Nat) Nat) (chains : List Chain) : Prop :=
  ∀ (span : Nat × Nat) place, places[span]? = some place ↔
    ∃ chain, chains[place]? = some chain ∧ chain.span? = some span

/-! ## The order of chains -/

/-- A chain stands well before another one if it starts no later, and, where both start at time
zero, not with the positive zero before the negative one. -/
theorem inOrder_iff : inOrder chain other = true ↔ chain.start ≤ other.start ∧
    (other.start ≤ chain.start → other.start.isNegativeZero → chain.start.isNegativeZero) := by
  unfold inOrder Timestamp.before
  by_cases hle : chain.start ≤ other.start
  · by_cases hge : other.start ≤ chain.start
    · cases other.start.isNegativeZero <;> simp [Timestamp.lt_iff_not_le, hle, hge]
    · simp [Timestamp.lt_iff_not_le, hle, hge]
  · simp [Timestamp.lt_iff_not_le, hle]

theorem inOrder_trans (a b c : Chain) (hab : inOrder a b = true) (hbc : inOrder b c = true) :
    inOrder a c = true := by
  obtain ⟨hab, hzeroAB⟩ := inOrder_iff.1 hab
  obtain ⟨hbc, hzeroBC⟩ := inOrder_iff.1 hbc
  refine inOrder_iff.2 ⟨Timestamp.le_trans hab hbc, fun hca hzero => ?_⟩
  exact hzeroAB (Timestamp.le_trans hbc hca) (hzeroBC (Timestamp.le_trans hca hab) hzero)

theorem inOrder_total (a b : Chain) : (inOrder a b || inOrder b a) = true := by
  rw [Bool.or_eq_true, inOrder_iff, inOrder_iff]
  by_cases hab : a.start ≤ b.start
  · by_cases hba : b.start ≤ a.start
    · by_cases ha : a.start.isNegativeZero
      · exact Or.inl ⟨hab, fun _ _ => ha⟩
      · exact Or.inr ⟨hba, fun _ h => absurd h ha⟩
    · exact Or.inl ⟨hab, fun h => absurd h hba⟩
  · exact Or.inr ⟨(Timestamp.le_total _ _).resolve_left hab, fun h => absurd h hab⟩

/-- The summary of some chains is in the order of their starts. -/
theorem pairwise_summary (found : List Chain) :
    (summary found).Pairwise fun a b => a.start ≤ b.start ∧
      (b.start ≤ a.start → b.start.isNegativeZero = true → a.start.isNegativeZero = true) :=
  (List.pairwise_mergeSort inOrder_trans inOrder_total (merged found)).imp inOrder_iff.1

/-! ## Spans and labels -/

@[simp]
theorem sameSpan_iff : sameSpan chain other = true ↔ chain.span? = other.span? :=
  beq_iff_eq

theorem unknown_iff :
    unknown chains chain = true ↔ ∀ other ∈ chains, chain.span? ≠ other.span? := by
  simp [unknown]

/-- A new label is not a new span. -/
@[simp]
theorem span?_latest (found : List Chain) (chain : Chain) :
    (latest found chain).span? = chain.span? :=
  rfl

/-- The latest label among two lists of chains, one found after the other. -/
theorem latest_append (first second : List Chain) (chain : Chain) :
    latest (first ++ second) chain = latest second (latest first chain) := by
  have hlabel : latestLabel? (first ++ second) chain =
      (latestLabel? second chain).or (latestLabel? first chain) := by
    rw [latestLabel?, List.filter_append, List.getLast?_append, Option.map_or]
    rfl
  have hspan : latestLabel? second (latest first chain) = latestLabel? second chain := rfl
  unfold latest at hspan ⊢
  rw [hspan, hlabel]
  cases latestLabel? second chain with
  | none => rfl
  | some label => rfl

/-- Where no chain has the span, the label stays. -/
theorem latest_of_unknown (h : unknown found chain = true) : latest found chain = chain := by
  have hnone : found.filter (sameSpan chain) = [] := by
    refine List.filter_eq_nil_iff.2 fun other hother hsame => ?_
    exact unknown_iff.1 h other hother (sameSpan_iff.1 hsame)
  rw [latest, latestLabel?, hnone]
  rfl

theorem map_latest_of_unknown (h : ∀ chain ∈ chains, unknown found chain = true) :
    chains.map (latest found) = chains :=
  (List.map_congr_left fun chain hchain => latest_of_unknown (h chain hchain)).trans
    (List.map_id _)

/-- Among chains of different spans each has the latest label of its span. -/
theorem latest_of_mem (distinct : (found.map Chain.span?).Nodup) (h : chain ∈ found) :
    latest found chain = chain := by
  have hne : found.filter (sameSpan chain) ≠ [] :=
    List.ne_nil_of_mem (List.mem_filter.2 ⟨h, sameSpan_iff.2 rfl⟩)
  obtain ⟨hmem, hsame⟩ := List.mem_filter.1 (List.getLast_mem hne)
  have hlast : (found.filter (sameSpan chain)).getLast hne = chain :=
    List.inj_on_of_nodup_map distinct hmem h (sameSpan_iff.1 hsame).symm
  rw [latest, latestLabel?, List.getLast?_eq_some_getLast hne, hlast]
  rfl

/-! ## The first chain of each span -/

/-- The first chains of each span in two lists, one after the other. -/
theorem eraseDupsBy_append (first second : List Chain) :
    (first ++ second).eraseDupsBy sameSpan =
      first.eraseDupsBy sameSpan ++ (second.filter (unknown first)).eraseDupsBy sameSpan := by
  induction hn : first.length using Nat.strong_induction_on generalizing first second with
  | _ n ih =>
      cases first with
      | nil =>
          have hall : second.filter (unknown []) = second := List.filter_eq_self.2 fun _ _ => rfl
          rw [List.nil_append, hall]
          rfl
      | cons chain first =>
          have hshorter : (first.filter fun b => sameSpan b chain = false).length < n := by
            have := List.length_filter_le (fun b => decide (sameSpan b chain = false)) first
            simp only [List.length_cons] at hn
            omega
          rw [List.cons_append, List.eraseDupsBy_cons, List.eraseDupsBy_cons, List.filter_append,
            ih _ hshorter _ _ rfl, List.filter_filter, List.cons_append]
          congr 3
          -- what is no repetition of `chain` is known from the rest without its repetitions
          refine List.filter_congr fun b _ => ?_
          rw [Bool.eq_iff_iff, Bool.and_eq_true, unknown_iff, unknown_iff]
          simp only [List.mem_filter, decide_eq_true_eq, List.forall_mem_cons]
          grind [sameSpan]

/-- Chains of different spans are all the first ones of their spans. -/
theorem eraseDupsBy_of_distinct (distinct : (found.map Chain.span?).Nodup) :
    found.eraseDupsBy sameSpan = found := by
  induction found with
  | nil => rfl
  | cons chain rest ih =>
      obtain ⟨hnew, distinct⟩ := List.nodup_cons.1 distinct
      have hrest : (rest.filter fun other => sameSpan other chain = false) = rest := by
        refine List.filter_eq_self.2 fun other hother => ?_
        rw [decide_eq_true_eq, ← Bool.not_eq_true, sameSpan_iff]
        intro heq
        exact hnew (heq ▸ List.mem_map_of_mem hother)
      rw [List.eraseDupsBy_cons, hrest, ih distinct]

/-- The first chains of each span have different spans, and they have all spans. -/
theorem eraseDupsBy_spec (found : List Chain) :
    ((found.eraseDupsBy sameSpan).map Chain.span?).Nodup ∧
      ∀ span, span ∈ (found.eraseDupsBy sameSpan).map Chain.span? ↔
        span ∈ found.map Chain.span? := by
  induction found using List.reverseRecOn with
  | nil => simp
  | append_singleton found chain ih =>
      obtain ⟨distinct, hspans⟩ := ih
      rw [eraseDupsBy_append]
      by_cases hnew : unknown found chain = true
      · -- the chain is the first one of its span
        have hspan : chain.span? ∉ (found.eraseDupsBy sameSpan).map Chain.span? := by
          rw [hspans, List.mem_map]
          rintro ⟨other, hother, heq⟩
          exact unknown_iff.1 hnew other hother heq.symm
        have hsingle : [chain].eraseDupsBy sameSpan = [chain] := rfl
        rw [List.filter_cons_of_pos hnew, List.filter_nil, hsingle]
        refine ⟨?_, fun span => ?_⟩
        · rw [List.map_append, List.map_singleton, List.nodup_append_comm]
          exact List.nodup_cons.2 ⟨hspan, distinct⟩
        · rw [List.map_append, List.map_append, List.mem_append, List.mem_append, hspans]
      · rw [List.filter_cons_of_neg hnew, List.filter_nil, List.eraseDupsBy_nil, List.append_nil]
        refine ⟨distinct, fun span => ?_⟩
        obtain ⟨other, hother, heq⟩ : ∃ other ∈ found, chain.span? = other.span? := by
          by_contra hnone
          exact hnew (unknown_iff.2 fun other hother heq => hnone ⟨other, hother, heq⟩)
        rw [hspans, List.map_append, List.mem_append, List.map_singleton, List.mem_singleton]
        refine ⟨Or.inl, fun h => h.elim id fun hspan => ?_⟩
        rw [hspan, heq]
        exact List.mem_map_of_mem hother

/-- New labels are not new spans. -/
@[simp]
theorem map_span?_map_latest (found chains : List Chain) :
    (chains.map (latest found)).map Chain.span? = chains.map Chain.span? := by
  rw [List.map_map]
  rfl

/-- New labels leave the same chains unknown. -/
theorem unknown_map_latest (found chains : List Chain) :
    unknown (chains.map (latest found)) = unknown chains := by
  funext chain
  rw [unknown, List.any_map]
  rfl

/-- A summary has each span once. -/
theorem distinct_summary (found : List Chain) : ((summary found).map Chain.span?).Nodup := by
  have hperm := (List.mergeSort_perm (merged found) inOrder).map Chain.span?
  rw [summary, hperm.nodup_iff, merged, map_span?_map_latest]
  exact (eraseDupsBy_spec found).1

/-- A summary has the spans of all chains. -/
theorem mem_spans_summary {span : Option (Nat × Nat)} :
    span ∈ (summary found).map Chain.span? ↔ span ∈ found.map Chain.span? := by
  have hperm := (List.mergeSort_perm (merged found) inOrder).map Chain.span?
  rw [summary, hperm.mem_iff, merged, map_span?_map_latest]
  exact (eraseDupsBy_spec found).2 span

/-- A chain is unknown to a summary exactly if its span has not been found. -/
theorem unknown_summary (found : List Chain) (chain : Chain) :
    unknown (summary found) chain = unknown found chain := by
  have hunknown (chains : List Chain) :
      unknown chains chain = true ↔ chain.span? ∉ chains.map Chain.span? := by
    rw [unknown_iff, List.mem_map]
    constructor
    · rintro h ⟨other, hother, heq⟩
      exact h other hother heq.symm
    · intro h other hother heq
      exact h ⟨other, hother, heq.symm⟩
  rw [Bool.eq_iff_iff, hunknown, hunknown, mem_spans_summary]

/-- Chains of different spans label the chains found before them, and those of new spans are
added. -/
theorem merged_append (found : List Chain) (distinct : (more.map Chain.span?).Nodup) :
    merged (found ++ more) = (merged found).map (latest more) ++ more.filter (unknown found) := by
  have hsublist : (more.filter (unknown found)).Sublist more := List.filter_sublist
  rw [merged, eraseDupsBy_append, eraseDupsBy_of_distinct (distinct.sublist (hsublist.map _)),
    List.map_append, merged, List.map_map]
  congr 1
  · exact List.map_congr_left fun chain _ => latest_append found more chain
  · refine (List.map_congr_left fun chain hchain => ?_).trans (List.map_id _)
    obtain ⟨hmem, hnew⟩ := List.mem_filter.1 hchain
    rw [latest_append, latest_of_unknown hnew, latest_of_mem distinct hmem]
    rfl

/-- The summary of more chains, from the summary of the ones before them. -/
theorem summary_append (found : List Chain) (distinct : (more.map Chain.span?).Nodup) :
    summary (found ++ more) =
      ((summary found).map (latest more) ++ more.filter (unknown found)).mergeSort inOrder := by
  have hmap : (summary found).map (latest more) =
      ((merged found).map (latest more)).mergeSort inOrder :=
    List.map_mergeSort fun _ _ _ _ => rfl
  rw [hmap, mergeSort_mergeSort_append inOrder_trans inOrder_total, summary,
    merged_append found distinct]

/-- Chains whose spans have all been found only bring new labels. -/
theorem summary_append_of_known (found : List Chain) (distinct : (more.map Chain.span?).Nodup)
    (hknown : more.filter (unknown found) = []) :
    summary (found ++ more) = (summary found).map (latest more) := by
  have hmap : (summary found).map (latest more) =
      ((merged found).map (latest more)).mergeSort inOrder :=
    List.map_mergeSort fun _ _ _ _ => rfl
  rw [hmap, summary, merged_append found distinct, hknown, List.append_nil]

/-! ## Recording -/

/-- New labels keep the places right. -/
theorem Indexes.map_latest (indexes : Indexes places chains) (found : List Chain) :
    Indexes places (chains.map (latest found)) := by
  intro span place
  rw [indexes span place, List.getElem?_map]
  constructor
  · rintro ⟨chain, hchain, hspan⟩
    exact ⟨latest found chain, by rw [hchain, Option.map_some], hspan⟩
  · rintro ⟨chain, hchain, hspan⟩
    obtain ⟨old, hold, rfl⟩ := Option.map_eq_some_iff.1 hchain
    exact ⟨old, hold, hspan⟩

/-- A span has no place exactly if no chain has it. -/
theorem Indexes.getElem?_eq_none_iff (indexes : Indexes places chains) {span : Nat × Nat}
    (hspan : chain.span? = some span) : places[span]? = none ↔ unknown chains chain = true := by
  rw [unknown_iff, Option.eq_none_iff_forall_ne_some]
  constructor
  · intro h other hother heq
    obtain ⟨place, hplace⟩ := List.mem_iff_getElem?.1 hother
    exact h place ((indexes span place).2 ⟨other, hplace, heq.symm.trans hspan⟩)
  · intro h place hplace
    obtain ⟨other, hother, heq⟩ := (indexes span place).1 hplace
    exact h other (List.mem_of_getElem? hother) (hspan.trans heq.symm)

/-- The label at the place of a span is that of the chain with the span. -/
theorem Indexes.relabel_eq (indexes : Indexes places chains) {span : Nat × Nat} {place : Nat}
    (hspan : chain.span? = some span) (hplace : places[span]? = some place) (new : List Chain) :
    relabel (chains ++ new) place chain.label = chains.map (latest [chain]) ++ new := by
  obtain ⟨kept, hkept, _⟩ := (indexes span place).1 hplace
  have hlt : place < chains.length := (List.getElem?_eq_some_iff.1 hkept).1
  refine List.ext_getElem? fun i => ?_
  by_cases hi : i < chains.length
  · rw [getElem?_relabel, List.getElem?_append_left hi,
      List.getElem?_append_left (by simpa using hi), List.getElem?_map]
    refine Option.map_congr fun other hother => ?_
    -- the chain stands at the place exactly if it has the span
    have hat : place = i ↔ other.span? = chain.span? := by
      rw [hspan]
      constructor
      · rintro rfl
        obtain ⟨kept, hkept, heq⟩ := (indexes span place).1 hplace
        cases hother.symm.trans hkept
        exact heq
      · intro heq
        have hi := (indexes span i).2 ⟨other, hother, heq⟩
        exact Option.some.inj (hplace.symm.trans hi)
    by_cases heq : other.span? = chain.span?
    · rw [if_pos (hat.2 heq), latest, latestLabel?,
        List.filter_cons_of_pos (sameSpan_iff.2 heq)]
      rfl
    · rw [if_neg (mt hat.1 heq), latest_of_unknown (unknown_iff.2 (by simpa using heq))]
  · rw [getElem?_relabel, List.getElem?_append_right (by omega),
      List.getElem?_append_right (by rw [List.length_map]; omega), List.length_map]
    have hne : place ≠ i := by omega
    simp [hne]

/-- Adding chains labels the chains that are there, and appends the chains of new spans. -/
theorem Indexes.foldl_addChain (indexes : Indexes places chains)
    (hspans : ∀ chain ∈ more, ∃ span, chain.span? = some span) (new : List Chain) :
    more.foldl (addChain places) (chains ++ new) =
      chains.map (latest more) ++ (new ++ more.filter (unknown chains)) := by
  induction more generalizing chains new with
  | nil =>
      rw [map_latest_of_unknown fun _ _ => rfl, List.filter_nil, List.append_nil]
      rfl
  | cons chain rest ih =>
      obtain ⟨⟨span, hspan⟩, hrest⟩ := List.forall_mem_cons.1 hspans
      have hlatest : chains.map (latest (chain :: rest)) =
          (chains.map (latest [chain])).map (latest rest) := by
        rw [List.map_map]
        exact List.map_congr_left fun other _ => latest_append [chain] rest other
      rw [List.foldl_cons, addChain, hspan]
      dsimp only
      cases hplace : places[span]? with
      | none =>
          have hnew := (indexes.getElem?_eq_none_iff hspan).1 hplace
          have hstay : chains.map (latest [chain]) = chains := by
            refine map_latest_of_unknown fun other hother => unknown_iff.2 ?_
            simpa using (unknown_iff.1 hnew other hother).symm
          dsimp only
          rw [List.append_assoc, ih indexes hrest, hlatest, hstay, List.filter_cons_of_pos hnew,
            List.append_assoc, List.singleton_append]
      | some place =>
          have hknown : ¬ unknown chains chain = true := by
            rw [← indexes.getElem?_eq_none_iff hspan, hplace]
            exact Option.some_ne_none place
          dsimp only
          rw [indexes.relabel_eq hspan hplace, ih (indexes.map_latest [chain]) hrest, hlatest,
            unknown_map_latest, List.filter_cons_of_neg hknown]

/-- A span that was there or that an entry of the list has is there in the end. -/
theorem isSome_foldl_places {entries : List (Chain × Nat)} {span : Nat × Nat}
    (h : places[span]?.isSome ∨ ∃ entry ∈ entries, entry.1.span? = some span) :
    (entries.foldl (fun places (chain, place) =>
      match chain.span? with
      | some span => places.insert span place
      | none => places) places)[span]?.isSome := by
  induction entries generalizing places with
  | nil => exact h.resolve_right (by simp)
  | cons entry rest ih =>
      obtain ⟨chain, position⟩ := entry
      refine ih ?_
      dsimp only
      rcases h with h | ⟨entry, hentry, hspan⟩
      · refine Or.inl ?_
        split
        · rw [Std.HashMap.getElem?_insert]
          split
          · rfl
          · exact h
        · exact h
      · rcases List.mem_cons.1 hentry with rfl | hentry
        · refine Or.inl ?_
          dsimp only at hspan
          rw [hspan]
          simp
        · exact Or.inr ⟨entry, hentry, hspan⟩

/-- The places of chains with different spans are right. -/
theorem indexes_placesOf (distinct : (chains.map Chain.span?).Nodup) :
    Indexes (placesOf chains) chains := by
  intro span place
  refine ⟨indexed_placesOf chains span place, ?_⟩
  rintro ⟨chain, hchain, hspan⟩
  have hsome : (placesOf chains)[span]?.isSome :=
    isSome_foldl_places (Or.inr ⟨(chain, place), List.mem_zipIdx_iff_getElem?.2 hchain, hspan⟩)
  obtain ⟨found, hfound⟩ := Option.isSome_iff_exists.1 hsome
  -- a place that is found has the span too, and only one place has it
  obtain ⟨other, hother, heq⟩ := indexed_placesOf chains span found hfound
  have hlt : found < (chains.map Chain.span?).length := by
    rw [List.length_map]
    exact (List.getElem?_eq_some_iff.1 hother).1
  have hplace : found = place := by
    refine (List.getElem?_inj hlt distinct).1 ?_
    rw [List.getElem?_map, List.getElem?_map, hother, hchain, Option.map_some, Option.map_some,
      heq, hspan]
  rw [hfound, hplace]

/-- Chains that can be recorded together: each has a span, and no two have the same. -/
structure Spanned (chains : List Chain) : Prop where
  distinct : (chains.map Chain.span?).Nodup
  exists_span : ∀ chain ∈ chains, ∃ span, chain.span? = some span

/-- The chains of a pattern have different spans. -/
theorem spanned_find (ordered : trace.Ordered) (pattern : Pattern) (label : String)
    (rule : RepeatRule) : Spanned (find trace pattern label rule) where
  distinct := by
    refine List.pairwise_map.2 (List.Pairwise.imp_of_mem ?_
      (first?_ne_of_find ordered pattern label rule))
    intro a b ha _ hne hspan
    obtain ⟨⟨first, last⟩, hfirst⟩ := exists_span?_of_found (found_of_mem_find ha)
    have hother := hspan ▸ hfirst
    exact hne ((span?_eq_some_iff.1 hfirst).1.trans (span?_eq_some_iff.1 hother).1.symm)
  exists_span chain hchain := exists_span?_of_found (found_of_mem_find hchain)

/-- Findings hold the summary of some chains and know their places. -/
structure Summarises (findings : Findings) (found : List Chain) : Prop where
  indexes : Indexes findings.places findings.chains
  chains_eq : findings.chains = summary found

theorem summarises_start (trace : Trace) (rule : RepeatRule) :
    Summarises (start trace rule) [] where
  indexes := by
    intro span place
    simp [start]
  chains_eq := by simp [start, summary, merged]

/-- Recording adds chains to the summary. -/
theorem Summarises.record (summarises : Summarises findings found) (spanned : Spanned more) :
    Summarises (findings.record more) (found ++ more) := by
  have hfold : more.foldl (addChain findings.places) findings.chains =
      (summary found).map (latest more) ++ more.filter (unknown found) := by
    have h := summarises.indexes.foldl_addChain spanned.exists_span []
    have hunknown : unknown findings.chains = unknown found := by
      rw [summarises.chains_eq]
      exact funext (unknown_summary found)
    rw [List.append_nil, List.nil_append, hunknown] at h
    rw [h, summarises.chains_eq]
  unfold Findings.record
  dsimp only
  rw [hfold]
  split
  · have hsummary := summary_append found spanned.distinct
    refine ⟨?_, hsummary.symm⟩
    show Indexes (placesOf _) _
    rw [← hsummary]
    exact indexes_placesOf (distinct_summary _)
  · rename_i hlength
    -- nothing is new, so the places stay right and only labels change
    have hnil : more.filter (unknown found) = [] := by
      rw [summarises.chains_eq, List.length_append, List.length_map] at hlength
      exact List.length_eq_zero_iff.1 (by omega)
    rw [hnil, List.append_nil]
    refine ⟨?_, (summary_append_of_known found spanned.distinct hnil).symm⟩
    rw [← summarises.chains_eq]
    exact summarises.indexes.map_latest more

/-- The same holds for chains that are recorded list by list. -/
theorem Summarises.foldl_record {lists : List (List Chain)}
    (summarises : Summarises findings found) (spanned : ∀ list ∈ lists, Spanned list) :
    Summarises (lists.foldl Findings.record findings) (found ++ lists.flatten) := by
  induction lists generalizing findings found with
  | nil => simpa using summarises
  | cons list rest ih =>
      obtain ⟨hlist, hrest⟩ := List.forall_mem_cons.1 spanned
      have := ih (summarises.record hlist) hrest
      rwa [List.append_assoc] at this

/-! ## Recording again -/

/-- Chains whose spans are all known only bring new labels. -/
theorem Indexes.foldl_record_of_known {lists : List (List Chain)}
    (indexes : Indexes findings.places findings.chains)
    (hspans : ∀ list ∈ lists, ∀ chain ∈ list, ∃ span, chain.span? = some span)
    (hknown : ∀ list ∈ lists, ∀ chain ∈ list, ¬ unknown findings.chains chain = true) :
    lists.foldl Findings.record findings =
      { findings with chains := findings.chains.map (latest lists.flatten) } := by
  induction lists generalizing findings with
  | nil =>
      rw [List.flatten_nil, map_latest_of_unknown fun _ _ => rfl]
      rfl
  | cons list rest ih =>
      obtain ⟨hspan, hspans⟩ := List.forall_mem_cons.1 hspans
      obtain ⟨hlist, hknown⟩ := List.forall_mem_cons.1 hknown
      have hrecord : findings.record list =
          { findings with chains := findings.chains.map (latest list) } := by
        have hfold := indexes.foldl_addChain hspan []
        rw [List.append_nil, List.filter_eq_nil_iff.2 hlist, List.append_nil,
          List.append_nil] at hfold
        unfold Findings.record
        dsimp only
        rw [hfold, if_neg (by simp)]
      rw [List.foldl_cons, hrecord]
      refine (ih (indexes.map_latest list) hspans ?_).trans ?_
      · show ∀ list' ∈ rest, ∀ chain ∈ list',
          ¬ unknown (findings.chains.map (latest list)) chain = true
        rw [unknown_map_latest]
        exact hknown
      · dsimp only
        rw [List.map_map, List.flatten_cons]
        congr 1
        exact List.map_congr_left fun chain _ => (latest_append list rest.flatten chain).symm

/-- The latest labels do not change when they are given again. -/
theorem map_latest_summary (found more : List Chain) :
    (summary (found ++ more)).map (latest more) = summary (found ++ more) := by
  have hagain (chain : Chain) : latest more (latest more chain) = latest more chain := by
    have hlabel : latestLabel? (more ++ more) chain = latestLabel? more chain := by
      rw [latestLabel?, List.filter_append, List.getLast?_append, Option.or_self]
      rfl
    rw [← latest_append, latest, hlabel]
    rfl
  have hmap : (summary (found ++ more)).map (latest more) =
      ((merged (found ++ more)).map (latest more)).mergeSort inOrder :=
    List.map_mergeSort fun _ _ _ _ => rfl
  rw [hmap, merged, List.map_map]
  congr 1
  refine List.map_congr_left fun chain _ => ?_
  show latest more (latest (found ++ more) chain) = _
  rw [latest_append, hagain]

/-- Chains that are recorded again change nothing. -/
theorem Summarises.foldl_record_again {lists : List (List Chain)}
    (summarises : Summarises findings found) (spanned : ∀ list ∈ lists, Spanned list) :
    lists.foldl Findings.record (lists.foldl Findings.record findings) =
      lists.foldl Findings.record findings := by
  have recorded := summarises.foldl_record spanned
  refine (recorded.indexes.foldl_record_of_known
    (fun list hlist => (spanned list hlist).exists_span) fun list hlist chain hchain => ?_).trans ?_
  · rw [recorded.chains_eq, unknown_summary, unknown_iff]
    intro h
    have hmem : chain ∈ lists.flatten := List.mem_flatten.2 ⟨list, hlist, hchain⟩
    exact h chain (List.mem_append_right found hmem) rfl
  · rw [recorded.chains_eq, map_latest_summary, ← recorded.chains_eq]

/-! ## Calls -/

/-- Each call finds chains of different spans. -/
theorem Keeps.spanned (ordered : trace.Ordered) (keeps : Keeps trace rule findings found)
    (pattern : Pattern) (label : String) :
    Spanned (findOn findings.trace findings.course pattern label findings.rule) := by
  rw [keeps.findOn_eq]
  exact spanned_find ordered pattern label rule

/-- Findings hold the summary of all chains that calls have found. -/
theorem Searched.summarises (ordered : trace.Ordered)
    (searched : Searched trace rule findings found) : Summarises findings found := by
  induction searched with
  | start => exact summarises_start trace rule
  | search pattern label h ih => exact ih.record ((h.keeps ordered).spanned ordered pattern label)
  | searchText source label h ih =>
      unfold Findings.searchText
      split
      · simpa [Except.toOption] using ih
      · rename_i pattern _
        exact ih.record ((h.keeps ordered).spanned ordered pattern label)
  | searchAll specs h ih =>
      refine ih.foldl_record fun list hlist => ?_
      obtain ⟨spec, _, rfl⟩ := List.mem_map.1 hlist
      exact (h.keeps ordered).spanned ordered spec.pattern spec.label

/-- Recording does not change what a pattern finds. -/
theorem findOn_record (findings : Findings) (more : List Chain) (pattern : Pattern)
    (label : String) :
    findOn (findings.record more).trace (findings.record more).course pattern label
        (findings.record more).rule =
      findOn findings.trace findings.course pattern label findings.rule := by
  obtain ⟨htrace, hcourse, hrule⟩ := record_eq findings more
  rw [htrace, hcourse, hrule]

theorem findOn_foldl_record (findings : Findings) (lists : List (List Chain)) (pattern : Pattern)
    (label : String) :
    findOn (lists.foldl record findings).trace (lists.foldl record findings).course pattern label
        (lists.foldl record findings).rule =
      findOn findings.trace findings.course pattern label findings.rule := by
  induction lists generalizing findings with
  | nil => rfl
  | cons list rest ih => rw [List.foldl_cons, ih, findOn_record]

/-- Matching several patterns is matching them one after the other. -/
theorem searchAll_eq_foldl (findings : Findings) (specs : List ChainSpec) :
    (findings.searchAll specs).1 =
      specs.foldl (fun later spec => (later.search spec.pattern spec.label).1) findings := by
  induction specs generalizing findings with
  | nil => rfl
  | cons spec rest ih =>
      rw [List.foldl_cons, ← ih]
      show ((rest.map _).foldl record (findings.record _)) = (rest.map _).foldl record _
      congr 1
      refine List.map_congr_left fun other _ => ?_
      exact (findOn_record findings _ other.pattern other.label).symm

/-- A pattern that is matched again changes nothing. -/
theorem Searched.search_again (ordered : trace.Ordered)
    (searched : Searched trace rule findings found) (pattern : Pattern) (label : String) :
    (findings.search pattern label).1.search pattern label = findings.search pattern label := by
  have spanned := (searched.keeps ordered).spanned ordered pattern label
  have hagain := (searched.summarises ordered).foldl_record_again
    (List.forall_mem_singleton.2 spanned)
  unfold Findings.search
  dsimp only
  rw [findOn_record]
  exact Prod.ext hagain rfl

theorem Searched.searchText_again (ordered : trace.Ordered)
    (searched : Searched trace rule findings found) (source label : String) :
    (findings.searchText source label).1.searchText source label =
      findings.searchText source label := by
  unfold Findings.searchText
  cases Pattern.ofText source with
  | error fault => rfl
  | ok pattern =>
      dsimp only
      rw [searched.search_again ordered]

theorem Searched.searchAll_again (ordered : trace.Ordered)
    (searched : Searched trace rule findings found) (specs : List ChainSpec) :
    (findings.searchAll specs).1.searchAll specs = findings.searchAll specs := by
  have spanned : ∀ list ∈ (findings.searchAll specs).2, Spanned list := by
    intro list hlist
    obtain ⟨spec, _, rfl⟩ := List.mem_map.1 hlist
    exact (searched.keeps ordered).spanned ordered spec.pattern spec.label
  have hagain := (searched.summarises ordered).foldl_record_again spanned
  unfold Findings.searchAll
  dsimp only
  simp only [findOn_foldl_record]
  exact Prod.ext hagain rfl

/-- After any calls findings hold, of all chains that have been found, the first one of each span
with the label of the latest one, in the order of their start times with the negative zero before
the positive one, and know the place of each. A call that is repeated at once changes nothing, and
patterns that are matched together leave what they leave one after the other. -/
theorem chains_eq_summary (built : trace.Built) (searched : Searched trace rule findings found) :
    findings.chains = summary found ∧
      (findings.chains.Pairwise fun a b => a.start ≤ b.start ∧
        (b.start ≤ a.start → b.start.isNegativeZero = true → a.start.isNegativeZero = true)) ∧
      (findings.chains.map Chain.span?).Nodup ∧
      (∀ (span : Nat × Nat) place, findings.places[span]? = some place ↔
        ∃ chain, findings.chains[place]? = some chain ∧ chain.span? = some span) ∧
      (∀ pattern label,
        (findings.search pattern label).1.search pattern label = findings.search pattern label) ∧
      (∀ source label, (findings.searchText source label).1.searchText source label =
        findings.searchText source label) ∧
      (∀ specs, (findings.searchAll specs).1.searchAll specs = findings.searchAll specs) ∧
      ∀ specs, (findings.searchAll specs).1 =
        specs.foldl (fun later spec => (later.search spec.pattern spec.label).1) findings := by
  have ordered := built.ordered
  have summarises := searched.summarises ordered
  refine ⟨summarises.chains_eq, ?_, ?_, summarises.indexes, searched.search_again ordered,
    searched.searchText_again ordered, searched.searchAll_again ordered,
    searchAll_eq_foldl findings⟩
  · rw [summarises.chains_eq]
    exact pairwise_summary found
  · rw [summarises.chains_eq]
    exact distinct_summary found

/-- A load that is found, looked for by a text that is no pattern, and found again with another
label. -/
theorem chains_eq_summary_load :
    let named := (start .load .noRepeat).search .load "load"
    let refused := named.1.searchText "load+ *" "load"
    let renamed := refused.1.searchText "load+ * load-" "again"
    let found := [] ++ named.2 ++ refused.2.toOption.getD [] ++ renamed.2.toOption.getD []
    Trace.load.Built ∧ Searched .load .noRepeat renamed.1 found ∧
      renamed.1.chains = summary found ∧ (renamed.1.chains.map Chain.span?).Nodup ∧
      (∀ (span : Nat × Nat) place, renamed.1.places[span]? = some place ↔
        ∃ chain, renamed.1.chains[place]? = some chain ∧ chain.span? = some span) ∧
      (renamed.1.searchText "load+ * load-" "last").1.searchText "load+ * load-" "last" =
        renamed.1.searchText "load+ * load-" "last" ∧
      (renamed.1.searchAll [⟨"first", .load⟩, ⟨"second", .load⟩]).1 =
        ((renamed.1.search .load "first").1.search .load "second").1 := by
  intro named refused renamed found
  have searched : Searched .load .noRepeat renamed.1 found :=
    .searchText _ _ (.searchText _ _ (.search .load "load" .start))
  obtain ⟨hchains, _, hdistinct, hplaces, _, htext, _, hall⟩ :=
    chains_eq_summary Trace.built_load searched
  exact ⟨Trace.built_load, searched, hchains, hdistinct, hplaces, htext _ _, hall _⟩

end EventChains.Findings
