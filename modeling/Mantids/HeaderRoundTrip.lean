/-
# A header block comes back

A block of options that `add` has put together is written by `streamToUpstream` and read by a fresh
`MIME_Sub_Header`.

* `takesBlock` — the block is read up to its last byte;
* `sorted_received` — the reader's options are in the writer's order;
* `header_roundTrip` — every name and every text comes back.
-/
import Mantids.HeaderBlock
import Mantids.Lib.Cut

namespace Mantids

open Feed Occurrence

namespace MimeSubHeader

open MimeHeaderOption

variable (tags : ℕ → List UInt8) (heap : ℕ → ℕ → UInt8)

/-! ## How much is read -/

variable {p p' : SubParser MimeSubHeader} {w : List UInt8} {ws : List (List UInt8)}
  {r : Result (SubParser MimeSubHeader) UInt8}

/-- A run over the rest of a block that is stopped has taken all of it. -/
def TakesBlock (p : SubParser MimeSubHeader) (ws : List (List UInt8))
    (r : Result (SubParser MimeSubHeader) UInt8) : Prop :=
  ∀ lines, (∀ l ∈ lines, Line l) → p.unparsedBuffer.bytes ++ ws.flatten = block lines →
    r.outcome = .stopped → taken r.calls = ws.flatten.length

variable {tags} in
/-- The empty line is all that was left. -/
theorem TakesBlock.ended {q : ℕ} (h : Reading p)
    (hfirst : first [13, 10] (p.unparsedBuffer.bytes ++ w.take p.unparsedBuffer.getSizeLeft) =
      some q)
    (hshown : SubParser.Shown (parse tags) p p'
      ((p.unparsedBuffer.bytes ++ w.take p.unparsedBuffer.getSizeLeft).take q))
    (hends : finished p' = true) :
    TakesBlock p (w :: ws)
      ⟨[⟨p, w, ws, some (q + 2 - p.unparsedBuffer.bytes.length)⟩], p', .stopped⟩ := by
  intro lines hlines hblock _
  have hq := first_of_line hfirst hblock
  rcases lines with _ | ⟨l, lines⟩
  · obtain rfl : q = 0 := Option.some.inj (hq.symm.trans first_block_nil)
    have hlength := congrArg List.length hblock
    have htwo : (block []).length = 2 := rfl
    rw [List.length_append, htwo] at hlength
    rw [taken_cons, taken_nil, Option.getD_some]
    omega
  · -- a line does not end the block
    have hl := hlines l List.mem_cons_self
    obtain rfl : q = l.length := Option.some.inj (hq.symm.trans (first_block_cons hl lines))
    rw [block_cons] at hblock
    rw [(rest_of_line h hfirst rfl hblock).1] at hshown
    rw [(derived_of_line hshown hl.1).2] at hends
    cases hends

variable {tags} in
/-- Behind a line the rest of the block is left. -/
theorem TakesBlock.line {q : ℕ} (h : Reading p)
    (hfirst : first [13, 10] (p.unparsedBuffer.bytes ++ w.take p.unparsedBuffer.getSizeLeft) =
      some q)
    (hbytes : p'.unparsedBuffer.bytes = [])
    (hshown : SubParser.Shown (parse tags) p p'
      ((p.unparsedBuffer.bytes ++ w.take p.unparsedBuffer.getSizeLeft).take q))
    (hgoes : finished p' = false) (hle : q + 2 - p.unparsedBuffer.bytes.length ≤ w.length)
    (hr : TakesBlock p' (refeed (q + 2 - p.unparsedBuffer.bytes.length) w ws) r) :
    TakesBlock p (w :: ws)
      ⟨⟨p, w, ws, some (q + 2 - p.unparsedBuffer.bytes.length)⟩ :: r.calls, r.final,
        r.outcome⟩ := by
  intro lines hlines hblock hstopped
  have hq := first_of_line hfirst hblock
  rcases lines with _ | ⟨l, lines⟩
  · obtain rfl : q = 0 := Option.some.inj (hq.symm.trans first_block_nil)
    rw [List.take_zero] at hshown
    rw [(derived_of_end hshown).2] at hgoes
    cases hgoes
  · obtain ⟨hl, hlines⟩ := List.forall_mem_cons.mp hlines
    obtain rfl : q = l.length := Option.some.inj (hq.symm.trans (first_block_cons hl lines))
    rw [block_cons] at hblock
    have hrest := (rest_of_line h hfirst rfl hblock).2
    apply taken_cons_of_refeed hle rfl
    apply hr lines hlines _ hstopped
    rw [hbytes, List.nil_append, hrest]

/-- The run over the rest of a block takes all of it. -/
theorem takesBlock (h : Reading p) (hws : ∀ w ∈ ws, w ≠ []) {fuel : ℕ}
    (hfuel : ws.flatten.length ≤ fuel) :
    TakesBlock p ws (feed (SubParser.write (parse tags) heap) finished fuel p ws) := by
  apply block_induction heap TakesBlock ?done ?refused ?ended ?line ?kept h hws hfuel
  case done => exact fun p h lines hlines hblock hstopped => by cases hstopped
  case refused => exact fun p w ws p' h hwhy lines hlines hblock hstopped => by cases hstopped
  case ended =>
    intro p w ws p' q h hfirst hshown hends
    exact TakesBlock.ended h hfirst hshown hends
  case line =>
    intro p w ws p' q r h hfirst _ hbytes hshown hgoes hle hr
    exact TakesBlock.line h hfirst hbytes hshown hgoes hle hr
  case kept =>
    intro p w ws p' r h hbytes _ hr lines hlines hblock hstopped
    have hle := List.length_take_le' p.unparsedBuffer.getSizeLeft w
    apply taken_cons_of_refeed hle rfl
    apply hr lines hlines _ hstopped
    rw [hbytes, flatten_refeed hle, SubParser.append_take_flatten, hblock]

/-! ## What is read -/

/-- An entry of the multimap: the upper-cased name, and the name and the text as they were given. -/
def entry (opt : MimeHeaderOption) : List UInt8 × List UInt8 × List UInt8 :=
  (opt.getUpperName, opt.origName, opt.origValue)

/-- The entries in the order of the multimap. -/
def entries (h : MimeSubHeader) : List (List UInt8 × List UInt8 × List UInt8) := h.sorted.map entry

theorem sorted_pairwise (h : MimeSubHeader) :
    h.sorted.Pairwise fun a b => a.getUpperName ≤ b.getUpperName := by
  have htotal : Std.Total fun a b : MimeHeaderOption => a.getUpperName ≤ b.getUpperName :=
    ⟨fun a b => List.le_total a.getUpperName b.getUpperName⟩
  have htrans : IsTrans MimeHeaderOption fun a b => a.getUpperName ≤ b.getUpperName :=
    ⟨fun a b c hab hbc => List.le_trans hab hbc⟩
  exact List.pairwise_insertionSort _ _

/-- The options that are received in the order of the writer are in the order of the reader. -/
theorem sorted_received {h h' : MimeSubHeader}
    (hheaders : h'.headers.map (·.2) = h.sorted.zipIdx.map fun o => o.1.received (tags o.2)) :
    h'.sorted = h.sorted.zipIdx.map fun o => o.1.received (tags o.2) := by
  rw [sorted, hheaders]
  apply List.Pairwise.insertionSort_eq
  rw [List.pairwise_map]
  simp only [getUpperName_received]
  have hpairwise := sorted_pairwise h
  rw [← List.zipIdx_map_fst 0 h.sorted, List.pairwise_map] at hpairwise
  exact hpairwise

/-- What is received of a text without a zero byte is the option with its name and its text. -/
theorem entry_received {opt : MimeHeaderOption} (hvalue : 0 ∉ opt.origValue) (tag : List UInt8) :
    entry (opt.received tag) = entry opt := by
  have hwhole : opt.origValue.takeWhile (· ≠ 0) = opt.origValue :=
    Cut.takeWhile_ne_eq_self_iff.mpr hvalue
  unfold entry
  rw [getUpperName_received, received, (origName_parseSubValues ..).1,
    (origName_parseSubValues ..).2, hwhole]

/-! ## Blocks that were put together -/

/-- A name and a text that make one line, with the name in front of the separator. -/
structure Sendable (optionName optionValue : List UInt8) : Prop where
  separator : ¬ [58, 32] <:+: optionName
  start : optionName.head? ≠ some 32 ∧ optionName.head? ≠ some 9
  name : 13 ∉ optionName ∧ 10 ∉ optionName ∧ 0 ∉ optionName
  value : 13 ∉ optionValue ∧ 10 ∉ optionValue ∧ 0 ∉ optionValue

instance (optionName optionValue : List UInt8) : Decidable (Sendable optionName optionValue) :=
  decidable_of_iff ((¬ [58, 32] <:+: optionName) ∧
      (optionName.head? ≠ some 32 ∧ optionName.head? ≠ some 9) ∧
      (13 ∉ optionName ∧ 10 ∉ optionName ∧ 0 ∉ optionName) ∧
      13 ∉ optionValue ∧ 10 ∉ optionValue ∧ 0 ∉ optionValue)
    ⟨fun h => ⟨h.1, h.2.1, h.2.2.1, h.2.2.2⟩, fun h => ⟨h.separator, h.start, h.name, h.value⟩⟩

theorem Sendable.writable {opt : MimeHeaderOption} (h : Sendable opt.origName opt.origValue) :
    opt.Writable := by
  refine ⟨?_, h.start, ?_⟩
  · rw [first_eq_none_iff (by decide)]
    exact fun q hq => h.separator (hq.isInfix.trans (List.drop_suffix q _).isInfix)
  · apply first_eq_none_of_not_mem
    rw [MimeHeaderOption.toText, List.mem_append, List.mem_append]
    simp [h.name.1, h.value.1]

/-- The block that `add` makes of names and texts. -/
def build (options : List (List UInt8 × List UInt8)) : MimeSubHeader :=
  options.foldl (fun h o => (h.add tags o.1 o.2).1) {}

/-- The block holds the names and the texts that were added, in their order. -/
theorem headers_build {options : List (List UInt8 × List UInt8)} (hroom : options.length ≤ 32) :
    (build tags options).headers.map (fun o => (o.2.origName, o.2.origValue)) = options := by
  have hfold : ∀ (options : List (List UInt8 × List UInt8)) (h : MimeSubHeader),
      h.headers.length + options.length ≤ h.maxOptions →
        (options.foldl (fun h o => (h.add tags o.1 o.2).1) h).headers.map
            (fun o => (o.2.origName, o.2.origValue)) =
          h.headers.map (fun o => (o.2.origName, o.2.origValue)) ++ options := by
    intro options
    induction options with
    | nil => simp
    | cons o options ih =>
        intro h hroom
        rw [List.length_cons] at hroom
        rw [List.foldl_cons, add_of_room tags (by omega), ih]
        · rw [List.map_append, List.append_assoc, List.map_singleton,
            (origName_parseSubValues ..).1, (origName_parseSubValues ..).2, List.singleton_append]
        · rw [List.length_append, List.length_singleton]
          dsimp only
          omega
  exact hfold options {} (by rw [List.length_nil, Nat.zero_add]; exact hroom)

/-- **A header block comes back.**  The block of at most as many options as a header keeps, each of
them a line within the limit, is read up to its last byte, however it is cut; and the multimap of
the names and the texts is the same. -/
theorem header_roundTrip (tags' : ℕ → List UInt8) {options : List (List UInt8 × List UInt8)}
    (hoptions : ∀ o ∈ options, Sendable o.1 o.2)
    (hroom : options.length ≤ ({} : MimeSubHeader).maxOptions)
    (hsize : ∀ o ∈ options, o.1.length + 2 + o.2.length + 2 ≤ 2 * 1024)
    {ws : List (List UInt8)} (hws : ∀ w ∈ ws, w ≠ [])
    (htext : ws.flatten = (build tags options).text) :
    (read tags' heap ws).outcome = .stopped ∧
      (read tags' heap ws).final.parseStatus = .gotoNextSubparser ∧
      taken (read tags' heap ws).calls = (build tags options).text.length ∧
      (read tags' heap ws).final.derived.entries = (build tags options).entries := by
  have hbuilt := headers_build tags hroom
  have hmem : ∀ opt ∈ (build tags options).sorted, (opt.origName, opt.origValue) ∈ options := by
    intro opt hopt
    obtain ⟨o, ho, rfl⟩ := mem_sorted.mp hopt
    rw [← hbuilt]
    exact List.mem_map_of_mem ho
  have hwritable : ∀ opt ∈ (build tags options).sorted, opt.Writable :=
    fun opt hopt => (hoptions _ (hmem opt hopt)).writable
  have hlines : ∀ l ∈ (build tags options).sorted.map (·.toText), Line l := by
    intro l hl
    obtain ⟨opt, hopt, rfl⟩ := List.mem_map.mp hl
    exact (hwritable opt hopt).toText
  have hshort : ∀ l ∈ (build tags options).sorted.map (·.toText), l.length + 2 ≤ 2 * 1024 := by
    intro l hl
    obtain ⟨opt, hopt, rfl⟩ := List.mem_map.mp hl
    rw [MimeHeaderOption.toText, List.length_append, List.length_append]
    exact hsize _ (hmem opt hopt)
  have hlength : (build tags options).sorted.length ≤ 32 := by
    have hcount := congrArg List.length hbuilt
    rw [List.length_map] at hcount
    rw [length_sorted, hcount]
    exact hroom
  have hblock := htext.trans (text_eq_block _)
  obtain ⟨hstopped, hderived⟩ := (read_block tags' heap hlines hws hblock).1 hshort
  refine ⟨hstopped, ?_, ?_, ?_⟩
  · have hends : finished (read tags' heap ws).final = true := stop_of_stopped hstopped
    simpa [finished] using hends
  · have hstart : Reading (SubParser.start settings {}) :=
      ⟨SubParser.holds_start _ _, first_nil (by decide), rfl⟩
    have htaken := takesBlock tags' heap hstart hws le_rfl _ hlines hblock hstopped
    rw [← htext]
    exact htaken
  · have hheaders := foldl_parseOptionValue tags' (h := {}) hwritable
      (by rw [List.length_nil, Nat.zero_add]; exact hlength)
    rw [← hderived] at hheaders
    rw [entries, sorted_received tags' hheaders, entries, List.map_map]
    -- the tags do not show in the entries
    conv_rhs => rw [← List.zipIdx_map_fst 0 (build tags options).sorted, List.map_map]
    apply List.map_congr_left
    intro o ho
    have hvalue := (hoptions _ (hmem o.1 (List.fst_mem_of_mem_zipIdx ho))).value.2.2
    exact entry_received hvalue (tags' o.2)

/-- Two options that are written in the other order, in three writes. -/
theorem header_roundTrip_two :
    (read (fun _ => bytesOf "t") (fun _ _ => 0)
        [bytesOf "accept: b; q=1" ++ [13], 10 :: bytesOf "Ho",
          bytesOf "st: a" ++ [13, 10, 13, 10]]).final.derived.entries =
      (build (fun _ => bytesOf "u")
        [(bytesOf "Host", bytesOf "a"), (bytesOf "accept", bytesOf "b; q=1")]).entries := by
  have hoptions : ∀ o ∈ [(bytesOf "Host", bytesOf "a"), (bytesOf "accept", bytesOf "b; q=1")],
      Sendable o.1 o.2 := by
    decide
  exact (header_roundTrip (fun _ => bytesOf "u") (fun _ _ => 0) (fun _ => bytesOf "t") hoptions
    (by decide) (by decide) (by decide) (by decide +kernel)).2.2.2

end MimeSubHeader

end Mantids
