/-
# The query of a request line

`RequestLine::parse` (`Protocol_HTTP/req_requestline.cpp`) puts what stands behind the `?` of the
URI into a container, and streams that into the variables of the request.

* `RequestLineVars.ofText` — the request line with its variables;
* `Counting` — the variables between two writes: a variable is only added at an ampersand;
* `length_vars_ofText` — so there are no more variables than ampersands in the query;
* `query_lost` — one of the variables is always missing.

`B_Base::streamTo` does not tell the parser that the stream has ended.
-/
import Mantids.Lib.Cut
import Mantids.Texts
import Mantids.UrlStrings
import Mantids.UrlVars

namespace Mantids

open Occurrence URLVars UrlStrings

/-! ## The request line -/

/-- The writes that a container is streamed in; the first one that fails is the last one. -/
def URLVars.streamInto (heap : ℕ → ℕ → UInt8) : URLVars → List (List UInt8) → URLVars
  | s, [] => s
  | s, w :: ws =>
    match (urlVarsParser heap).write s w with
    | (s, none) => s
    | (s, some _) => streamInto heap s ws

/-- `Request::RequestLine` with `m_getVars`. -/
structure RequestLineVars where
  requestLine : RequestLine := {}
  /-- `m_getVars`. -/
  getVars : URLVars := URLVars.fresh

namespace RequestLineVars

variable (heap : ℕ → ℕ → UInt8)

/-- `parseGETParameters`: the parameters go through a container. -/
def parseGETParameters (getVars : URLVars) (requestURIParameters : List UInt8) : URLVars :=
  match ({} : BChunks).append false requestURIParameters with
  | none => getVars
  -- the pieces are written, and nothing behind them that ends the stream
  | some (bc, _) => getVars.streamInto heap bc.pieces

/-- What `parse()` makes of a request; it does not look at what becomes of the variables. -/
def ofText (r : RequestLineVars) (clientRequest : List UInt8) : Option RequestLineVars :=
  match splitCompress (fun c => c = 9 ∨ c = 32) clientRequest with
  | _ :: requestURI :: _ =>
    (r.requestLine.ofText clientRequest).map fun requestLine =>
      { requestLine := requestLine
        getVars :=
          if 63 ∈ requestURI then parseGETParameters heap r.getVars requestLine.requestURIParameters
          else r.getVars }
  | _ => none

end RequestLineVars

/-! ## Variables and ampersands -/

namespace URLVars

open URLVarContent

/-- What the sub-parser waits for. -/
def settingsOf (stat : URLVarStat) : ParseSettings where
  parseMode := .multiDelimiter
  parseMultiDelimiter :=
    match stat with
    | .waitingName => [[61], [38]]
    | .waitingContent => [[38]]
  parseDataTargetSize := 4096

theorem prefixFree_settingsOf (stat : URLVarStat) :
    PrefixFree (settingsOf stat).parseMultiDelimiter := by
  rcases stat with _ | _
  · exact SubParser.prefixFree_form
  · refine ⟨by decide, ?_⟩
    intro d hd e he
    rw [List.mem_singleton.mp hd, List.mem_singleton.mp he]
    decide

/-- The variables between two writes of a stream that has not ended. -/
structure Counting (s : URLVars) : Prop where
  waits : SubParser.Undelimited (settingsOf s.currentStat) s.urlVarParser
  maxVarNameSize : s.maxVarNameSize = 4096
  maxVarContentSize : s.maxVarContentSize = 4096

theorem undelimited_of_cleared {st : ParseSettings} {p : SubParser URLVarContent}
    (hL : PrefixFree st.parseMultiDelimiter) (hset : st.Agree p.settings)
    (hended : p.streamEnded = false)
    (hbuffer : p.unparsedBuffer = { maxSize := st.parseDataTargetSize }) :
    SubParser.Undelimited st p := by
  refine ⟨SubParser.holds_of_cleared hset hended hbuffer, fun d hd q => ?_⟩
  rw [hbuffer]
  exact (first_eq_none_iff (hL.nonempty d hd)).mp (first_nil (hL.nonempty d hd)) q

theorem counting_fresh : Counting fresh :=
  ⟨undelimited_of_cleared (prefixFree_settingsOf _) ⟨rfl, rfl, fun _ => rfl, fun _ => rfl⟩ rfl rfl,
    rfl, rfl⟩

theorem keepsSettings_parse (c : BChunks) : SubParser.KeepsSettings (parse c) := by
  intro d st shown
  have hst : (parse c d st shown).2.1 = st := by
    unfold parse
    dsimp only
    repeat' split
    all_goals rfl
  rw [hst]
  exact ⟨rfl, rfl, fun _ => rfl, fun _ => rfl⟩

/-- What the sub-parser made of data that it took: it waits for more, or it has found a delimiter in
it. -/
structure Taken (stat : URLVarStat) (w : List UInt8) (q : SubParser URLVarContent) (n : ℕ) :
    Prop where
  length_le : n ≤ w.length
  waits : SubParser.Undelimited (settingsOf stat) q
  found : q.parseStatus = .getMoreData ∨
    (q.delimiterFound ∈ (settingsOf stat).parseMultiDelimiter ∧ q.streamEnded = false ∧
      q.unparsedBuffer = { maxSize := 4096 } ∧ q.delimiterFound ⊆ w.take n)

variable (heap : ℕ → ℕ → UInt8) {s : URLVars} {w : List UInt8}

/-- A delimiter that is found ends in the data that was taken. -/
theorem delimiter_subset {u d : List UInt8} {pos k : ℕ} (hd : d.length = 1)
    (hoccurs : OccursAt d (u ++ w.take k) pos) (hnot : ∀ q, ¬ OccursAt d u q) :
    u.length ≤ pos ∧ pos + 1 ≤ u.length + (w.take k).length ∧
      d ⊆ w.take (pos + 1 - u.length) := by
  obtain ⟨x, rfl⟩ := List.length_eq_one_iff.mp hd
  have hle := hoccurs.add_length_le (List.cons_ne_nil _ _)
  rw [List.length_append, List.length_singleton] at hle
  have hbehind : u.length ≤ pos := by
    by_contra hlt
    exact hnot pos (hoccurs.of_append (List.cons_ne_nil _ _) (by rw [List.length_singleton]; omega))
  refine ⟨hbehind, hle, fun y hy => ?_⟩
  obtain rfl := List.mem_singleton.mp hy
  rw [OccursAt, List.drop_append, List.drop_eq_nil_of_le hbehind, List.nil_append] at hoccurs
  obtain ⟨t, ht⟩ := hoccurs.trans ((List.take_prefix k w).drop (pos - u.length))
  rw [show pos + 1 - u.length = (pos - u.length) + 1 by omega, List.take_add, ← ht]
  exact List.mem_append_right _ List.mem_cons_self

/-- What a write does to the sub-parser. -/
theorem Counting.taken (h : Counting s) (hw : w ≠ []) :
    (subParserWrite heap (s.urlVarParser.setParseStatus .getMoreData) w).2 = .nullopt ∨
      ∃ q n, subParserWrite heap (s.urlVarParser.setParseStatus .getMoreData) w = (q, .bytes n) ∧
        Taken s.currentStat w q n := by
  have hq := h.waits.holds.setParseStatus .getMoreData
  have hL := prefixFree_settingsOf s.currentStat
  by_cases hleft : (s.urlVarParser.setParseStatus .getMoreData).unparsedBuffer.getSizeLeft = 0
  · -- a full buffer refuses the data
    left
    unfold subParserWrite
    rw [SubParser.writeIntoParser, if_neg hw, hq.parseMode]
    dsimp only [settingsOf]
    rw [SubParser.parseByMultiDelimiter, SubParser.appendToUnparsedBuffer_full hw hleft]
  right
  obtain ⟨c, happ, hc, hbytes, -⟩ := SubParser.appendToUnparsedBuffer_stored hq (by
    show 4096 < 2 ^ 64
    norm_num) hw hleft (hq.not_chunkLimit (by show 4096 ≤ 128 * 1024; norm_num) w)
  have hfind : c.findAny (s.urlVarParser.setParseStatus .getMoreData).parseMultiDelimiter true 0 0 =
      SubParser.picked (settingsOf s.currentStat).parseMultiDelimiter c.bytes := by
    rw [show (s.urlVarParser.setParseStatus .getMoreData).parseMultiDelimiter = _ from
      hq.parseMultiDelimiter rfl]
    exact BChunks.findAny_eq hc.size_eq hc.counted.fits hL.nonempty
  rcases hpick : SubParser.picked (settingsOf s.currentStat).parseMultiDelimiter c.bytes with
    _ | ⟨pos, d⟩
  · rw [hpick] at hfind
    have hwrite : subParserWrite heap (s.urlVarParser.setParseStatus .getMoreData) w = _ :=
      SubParser.writeIntoParser_multiDelimiter_none heap hq.parseMode hw hq.streamEnded happ hfind
    refine ⟨_, _, hwrite, ⟨List.length_take_le' _ _, ⟨⟨hc.settings, hc.streamEnded, hc.limits,
      hc.counted, hc.chunks, hc.size_le⟩, ?_⟩, Or.inl rfl⟩⟩
    exact (SubParser.picked_eq_none_iff hL).mp hpick
  · rw [hpick] at hfind
    obtain ⟨hmem, hoccurs⟩ := SubParser.occursAt_of_picked hL hpick
    have hone : d.length = 1 := by
      have hall : ∀ stat : URLVarStat, ∀ d ∈ (settingsOf stat).parseMultiDelimiter,
          d.length = 1 := by
        rintro (_ | _) <;> decide
      exact hall _ d hmem
    rw [hbytes] at hoccurs
    rw [SubParser.unparsedBuffer_setParseStatus] at hoccurs hbytes
    obtain ⟨hbehind, hle, hsubset⟩ := delimiter_subset hone hoccurs (h.waits.none d hmem)
    have hwrite : subParserWrite heap (s.urlVarParser.setParseStatus .getMoreData) w = _ :=
      SubParser.writeIntoParser_multiDelimiter_found heap hq.parseMode hw happ hfind
    have hcount : subSizeT ((pos + d.length) % 2 ^ 64)
        (s.urlVarParser.setParseStatus .getMoreData).unparsedBuffer.size =
          pos + 1 - s.urlVarParser.unparsedBuffer.bytes.length := by
      have hsize : c.size = c.bytes.length := hc.size_eq
      have hfits : c.size < 2 ^ 64 := hc.counted.fits
      rw [hbytes, List.length_append] at hsize
      rw [hq.size_eq, SubParser.unparsedBuffer_setParseStatus, hone, Nat.mod_eq_of_lt (by omega)]
      exact subSizeT_of_le (by omega) (by omega)
    rw [hcount, happ] at hwrite
    have hc' : SubParser.Holds (settingsOf s.currentStat)
        { s.urlVarParser.setParseStatus .getMoreData with unparsedBuffer := c, delimiterFound :=
          d } :=
      ⟨hc.settings, hc.streamEnded, hc.limits, hc.counted, hc.chunks, hc.size_le⟩
    obtain ⟨hholds, hcleared, -, -⟩ := hc'.parsed _ (keepsSettings_parse c) (c.bytes.take pos)
    have hbuffer := hcleared.trans hc.limits
    refine ⟨_, _, hwrite, ⟨?_, ⟨hholds, ?_⟩, Or.inr ⟨hmem, hq.streamEnded, hbuffer, hsubset⟩⟩⟩
    · have htake := List.length_take_le' s.urlVarParser.unparsedBuffer.getSizeLeft w
      omega
    · intro e he q
      rw [hbuffer]
      exact (first_eq_none_iff (hL.nonempty e he)).mp (first_nil (hL.nonempty e he)) q

/-! ### Rounds -/

/-- What a round does: unless it fails, it takes some of the data, and adds no more variables than
there are ampersands in it. -/
structure Counted (s s' : URLVars) (w : List UInt8) (n : ℕ) : Prop where
  counting : Counting s'
  length_le : n ≤ w.length
  vars : s'.vars.length ≤ s.vars.length + (w.take n).count 38

theorem length_multimapInsert {α : Type*} (m : List (List UInt8 × α)) (k : List UInt8) (v : α) :
    (multimapInsert m k v).length = m.length + 1 := by
  have hsplit := congrArg List.length
    (List.takeWhile_append_dropWhile (p := fun e => !decide (k < e.1)) (l := m))
  rw [List.length_append] at hsplit
  rw [multimapInsert, List.length_append, List.length_cons]
  omega

theorem length_addVar_le (vars : Variables) (varName : List UInt8) (data : BChunks) :
    (addVar vars varName data).length ≤ vars.length + 1 := by
  unfold addVar
  split
  · exact (length_multimapInsert _ _ _).le
  · exact Nat.le_succ _

/-- The next sub-parser: a variable is added if an ampersand was found. -/
theorem Counting.next (h : Counting s) {q : SubParser URLVarContent} {n : ℕ}
    (hq : Taken s.currentStat w q n) (hstatus : q.parseStatus = .gotoNextSubparser) :
    (changeToNextParser { s with urlVarParser := q }).2 = true ∧
      Counted s (changeToNextParser { s with urlVarParser := q }).1 w n := by
  obtain ⟨hmem, hended, hbuffer, hsubset⟩ := hq.found.resolve_left (by
    rw [hstatus]
    decide)
  have hmode : q.parseMode = .multiDelimiter := hq.waits.holds.parseMode
  have hdelims := hq.waits.holds.parseMultiDelimiter rfl
  have hadd : ∀ (varName : List UInt8) (data : BChunks), q.delimiterFound = [38] →
      (addVar s.vars varName data).length ≤ s.vars.length + (w.take n).count 38 := by
    intro varName data hfound
    have hcount : 0 < (w.take n).count 38 := by
      rw [hfound] at hsubset
      exact List.count_pos_iff.mpr (hsubset List.mem_cons_self)
    have hlength := length_addVar_le s.vars varName data
    omega
  obtain hstat | hstat : s.currentStat = .waitingName ∨ s.currentStat = .waitingContent := by
    rcases s.currentStat with _ | _
    · exact Or.inl rfl
    · exact Or.inr rfl
  · rw [hstat] at hdelims
    by_cases hfound : q.delimiterFound = [38]
    · -- a name without a value
      rw [changeToNextParser_lone hstat (Or.inl hfound)]
      refine ⟨rfl, ⟨⟨?_, h.maxVarNameSize, h.maxVarContentSize⟩, hq.length_le, hadd _ _ hfound⟩⟩
      show SubParser.Undelimited (settingsOf s.currentStat) _
      rw [hstat]
      exact undelimited_of_cleared (prefixFree_settingsOf _)
        ⟨hmode, congrArg BChunks.maxSize hbuffer, fun hm => absurd rfl hm, fun _ => hdelims⟩ hended
          hbuffer
    · -- the value follows
      rw [changeToNextParser_name hstat hfound hended]
      refine ⟨rfl,
        ⟨⟨?_, h.maxVarNameSize, h.maxVarContentSize⟩, hq.length_le, Nat.le_add_right _ _⟩⟩
      refine undelimited_of_cleared (prefixFree_settingsOf _)
        ⟨hmode, h.maxVarContentSize, fun hm => absurd rfl hm, fun _ => rfl⟩ hended ?_
      show { q.unparsedBuffer with maxSize := s.maxVarContentSize } = _
      rw [hbuffer, h.maxVarContentSize]
      rfl
  · -- behind the value
    rw [hstat] at hmem
    rw [changeToNextParser_content hstat]
    refine ⟨rfl, ⟨⟨?_, h.maxVarNameSize, h.maxVarContentSize⟩, hq.length_le,
      hadd _ _ (List.mem_singleton.mp hmem)⟩⟩
    refine undelimited_of_cleared (prefixFree_settingsOf _)
      ⟨hmode, h.maxVarNameSize, fun hm => absurd rfl hm, fun _ => rfl⟩ hended ?_
    show { q.unparsedBuffer with maxSize := s.maxVarNameSize } = _
    rw [hbuffer, h.maxVarNameSize]
    rfl

/-- The step of a stream. -/
theorem Counting.round (h : Counting s) (hw : w ≠ []) :
    (∃ s', (urlVarsParser heap).parseRound s w = (s', .failed) ∧ s'.vars = s.vars) ∨
      ∃ s' n, Counted s s' w n ∧ ((urlVarsParser heap).parseRound s w = (s', .answer n) ∨
        ((urlVarsParser heap).parseRound s w = (s', .left n) ∧ n < w.length)) := by
  have hparser : (urlVarsParser heap).hasParser s = true := rfl
  have hinto : (urlVarsParser heap).writeIntoParser s w =
      ({ s with urlVarParser :=
          (subParserWrite heap (s.urlVarParser.setParseStatus .getMoreData) w).1 },
        if (subParserWrite heap (s.urlVarParser.setParseStatus .getMoreData) w).1.derived.thrown
          then .exception
        else (subParserWrite heap (s.urlVarParser.setParseStatus .getMoreData) w).2) := rfl
  rcases h.taken heap hw with hrefused | ⟨q, n, hwrite, hq⟩
  · left
    rw [hrefused] at hinto
    refine ⟨_, ParserClass.parseRound_refused hparser hinto ?_, rfl⟩
    split <;> rfl
  · rw [hwrite] at hinto
    dsimp only at hinto
    by_cases hthrown : q.derived.thrown = true
    · left
      rw [if_pos hthrown] at hinto
      exact ⟨_, ParserClass.parseRound_refused hparser hinto rfl, rfl⟩
    · rw [if_neg hthrown] at hinto
      -- what `parse()` reports
      rcases hstatus : q.parseStatus with _ | _ | _
      · exact Or.inl ⟨_, ParserClass.parseRound_error hparser hinto hstatus, rfl⟩
      · right
        have hround := ParserClass.parseRound_more hparser hinto hstatus
        refine ⟨{ s with urlVarParser := q }, n, ⟨⟨hq.waits, h.maxVarNameSize, h.maxVarContentSize⟩,
          hq.length_le, Nat.le_add_right _ _⟩, ?_⟩
        split at hround
        · exact Or.inl hround
        · exact Or.inr ⟨hround, lt_of_le_of_ne hq.length_le ‹_›⟩
      · right
        obtain ⟨hchanged, hcounted⟩ := h.next hq hstatus
        rcases hchange : changeToNextParser { s with urlVarParser := q } with ⟨s', changed⟩
        rw [hchange] at hchanged hcounted
        obtain rfl : changed = true := hchanged
        have hround := ParserClass.parseRound_next hparser hinto hstatus hchange
        rw [if_neg (by decide)] at hround
        refine ⟨s', n, hcounted, ?_⟩
        split at hround
        · exact Or.inl hround
        · rename_i hmore
          exact Or.inr ⟨hround, lt_of_le_of_ne hq.length_le (not_or.mp hmore).2⟩

/-- A write: the rounds one after another. -/
theorem Counting.parseData (ttl : ℕ) (h : Counting s) (hw : w ≠ []) :
    ((urlVarsParser heap).parseData ttl s w).1.vars.length ≤ s.vars.length + w.count 38 ∧
      (((urlVarsParser heap).parseData ttl s w).2 ≠ none →
        Counting ((urlVarsParser heap).parseData ttl s w).1) := by
  induction ttl generalizing s w with
  | zero => exact ⟨Nat.le_add_right _ _, fun hnone => absurd rfl hnone⟩
  | succ ttl ih =>
      rcases h.round heap hw with ⟨s', hround, hvars⟩ | ⟨s', n, hs', hround | ⟨hround, hlt⟩⟩
      · rw [ParserClass.parseData_failed hround, hvars]
        exact ⟨Nat.le_add_right _ _, fun hnone => absurd rfl hnone⟩
      · rw [ParserClass.parseData_answer hround]
        refine ⟨?_, fun _ => hs'.counting⟩
        have hvars := hs'.vars
        have hcount := (List.take_sublist n w).count_le 38
        dsimp only
        omega
      · rw [ParserClass.parseData_left hround]
        obtain ⟨hvars', hcounting⟩ := ih hs'.counting (w := w.drop n) (by
          rw [Ne, List.drop_eq_nil_iff]
          omega)
        have hvars := hs'.vars
        have hcount := congrArg (List.count 38) (List.take_append_drop n w)
        rw [List.count_append] at hcount
        refine ⟨by dsimp only; omega, fun hsome => hcounting fun hnone => hsome ?_⟩
        rw [hnone]
        rfl

/-- **Whole streams.**  As long as the stream has not ended, no more variables are added than there
are ampersands. -/
theorem Counting.streamInto {ws : List (List UInt8)} (h : Counting s) (hws : ∀ w ∈ ws, w ≠ []) :
    (s.streamInto heap ws).vars.length ≤ s.vars.length + ws.flatten.count 38 := by
  induction ws generalizing s with
  | nil => exact Nat.le_add_right _ _
  | cons w ws ih =>
      obtain ⟨hw, hws⟩ := List.forall_mem_cons.mp hws
      obtain ⟨hvars, hcounting⟩ := Counting.parseData heap ((urlVarsParser heap).maxTTL + 1) h hw
      rw [List.flatten_cons, List.count_append]
      rcases hwrite : (urlVarsParser heap).write s w with ⟨s', _ | n⟩
      · rw [URLVars.streamInto, hwrite]
        rw [show (urlVarsParser heap).parseData _ s w = _ from hwrite] at hvars
        dsimp only at hvars ⊢
        omega
      · rw [URLVars.streamInto, hwrite]
        rw [show (urlVarsParser heap).parseData _ s w = _ from hwrite] at hvars hcounting
        have hrest := ih (hcounting (Option.some_ne_none n)) hws
        dsimp only at hvars hrest ⊢
        omega

end URLVars

/-! ## The query -/

/-- A container that was filled once is streamed in pieces of its bytes, none of which is empty. -/
theorem BChunks.pieces_append {buf : List UInt8} {bc : BChunks} {r : Option ℕ}
    (h : ({} : BChunks).append false buf = some (bc, r)) :
    (∀ w ∈ bc.pieces, w ≠ []) ∧ bc.pieces.flatten <+: buf := by
  have hrep : bc.RepInv ∧ bc.containerBytes < 2 ^ 64 := by
    have hempty : ({} : BChunks).RepInv := BChunks.repInv_clear {}
    have hbytes := h
    unfold BChunks.append at h
    split at h
    · cases h
      exact ⟨hempty, by norm_num⟩
    split at h
    · cases h
      exact ⟨hempty, by norm_num⟩
    rename_i hsize
    split at h
    · cases h
      exact ⟨hempty, by norm_num⟩
    unfold BChunks.append2 at h
    split at h
    · cases h
      exact ⟨hempty, by norm_num⟩
    rw [if_neg (by simp)] at h
    cases h
    exact BChunks.append2Loop_repInv _ buf 0 hempty (Or.inl (by norm_num)) (by
      have hlimit : ¬ 2 ^ 64 - 1 < buf.length + 0 := hsize
      show 0 + buf.length < 2 ^ 64
      omega)
  obtain ⟨hinv, hlt⟩ := hrep
  constructor
  · unfold BChunks.pieces
    split
    · simp
    · have htotal : bc.size = sizes bc.chunksVector := hinv.total
      rw [htotal, BChunks.copyChunks_sizes _ hinv.nonempty]
      intro w hw
      obtain ⟨b, hb, rfl⟩ := List.mem_map.mp hw
      exact hinv.nonempty b hb
  · rw [(hinv.counted hlt).flatten_pieces, BChunks.bytes_append h]
    exact List.take_prefix _ _

/-- The query of names and values that are encoded already. -/
def queryText : List (List UInt8 × List UInt8) → List UInt8
  | [] => []
  | v :: vs => v.1 ++ 61 :: v.2 ++ joined (vs.map fun u => ((38 : UInt8), u.1 ++ 61 :: u.2))

/-- There is one ampersand less than there are variables. -/
theorem count_queryText {vars : List (List UInt8 × List UInt8)} (hne : vars ≠ [])
    (hfree : ∀ v ∈ vars, 38 ∉ v.1 ∧ 38 ∉ v.2) : (queryText vars).count 38 + 1 = vars.length := by
  have hpair : ∀ v : List UInt8 × List UInt8, 38 ∉ v.1 ∧ 38 ∉ v.2 →
      (v.1 ++ 61 :: v.2).count 38 = 0 := by
    intro v hv
    rw [List.count_eq_zero, List.mem_append, List.mem_cons]
    simp [hv.1, hv.2]
  obtain ⟨v, vs, rfl⟩ := List.exists_cons_of_ne_nil hne
  obtain ⟨hv, hvs⟩ := List.forall_mem_cons.mp hfree
  rw [queryText, List.count_append, hpair v hv, List.length_cons, Nat.zero_add]
  congr 1
  clear hfree hne
  induction vs with
  | nil => rfl
  | cons u us ih =>
      obtain ⟨hu, hus⟩ := List.forall_mem_cons.mp hvs
      rw [List.map_cons, joined, List.flatMap_cons, List.count_append, List.count_cons, hpair u hu,
        List.length_cons, ← joined, ih hus]
      simp
      omega

/-- The variables of a query, decoded, in the order of the multimap. -/
def decodedVars (vars : List (List UInt8 × List UInt8)) : List (List UInt8 × List UInt8) :=
  vars.foldl (fun m v => multimapInsert m (upperCopy ((decodeURLStr v.1).getD []))
    ((decodeURLStr v.2).getD [])) []

theorem length_decodedVars (vars : List (List UInt8 × List UInt8)) :
    (decodedVars vars).length = vars.length := by
  have hfold : ∀ (vars m : List (List UInt8 × List UInt8)),
      (vars.foldl (fun m v => multimapInsert m (upperCopy ((decodeURLStr v.1).getD []))
        ((decodeURLStr v.2).getD [])) m).length = m.length + vars.length := by
    intro vars
    induction vars with
    | nil => exact fun m => rfl
    | cons v vars ih =>
        intro m
        rw [List.foldl_cons, ih, length_multimapInsert, List.length_cons]
        omega
  rw [decodedVars, hfold, List.length_nil, Nat.zero_add]

namespace RequestLineVars

variable (heap : ℕ → ℕ → UInt8)

/-- There are no more variables than ampersands in the query. -/
theorem length_vars_parseGETParameters (requestURIParameters : List UInt8) :
    (parseGETParameters heap URLVars.fresh requestURIParameters).vars.length ≤
      requestURIParameters.count 38 := by
  unfold parseGETParameters
  split
  · exact Nat.zero_le _
  · rename_i bc r happend
    obtain ⟨hne, hprefix⟩ := BChunks.pieces_append happend
    have hvars := Counting.streamInto heap counting_fresh hne
    have hcount := hprefix.sublist.count_le 38
    have hfresh : URLVars.fresh.vars.length = 0 := rfl
    omega

/-- **All GET parameters.**  Whatever the request line, one of the variables of its query is
missing: there are no more of them than ampersands. -/
theorem query_lost {clientRequest requestMethod path : List UInt8} {rest : List (List UInt8)}
    {vars : List (List UInt8 × List UInt8)}
    (hrequest : splitCompress (fun c => c = 9 ∨ c = 32) clientRequest =
      requestMethod :: (path ++ 63 :: queryText vars) :: rest)
    (hpath : 63 ∉ path) (hne : vars ≠ []) (hfree : ∀ v ∈ vars, 38 ∉ v.1 ∧ 38 ∉ v.2) :
    ∃ r, ofText heap {} clientRequest = some r ∧ r.getVars.vars.length < vars.length ∧
      entries r.getVars.vars ≠ decodedVars vars := by
  have hmark : 63 ∈ path ++ 63 :: queryText vars := by simp
  have hparameters : ((path ++ 63 :: queryText vars).dropWhile (· ≠ 63)).drop 1 = queryText vars :=
    Cut.drop_dropWhile_ne_append hpath (queryText vars)
  obtain ⟨requestLine, hline, hquery⟩ : ∃ requestLine, ({} : RequestLine).ofText clientRequest =
      some requestLine ∧
        requestLine.requestURIParameters = (queryText vars).takeWhile (· ≠ 0) := by
    unfold RequestLine.ofText
    rw [hrequest]
    refine ⟨_, rfl, ?_⟩
    unfold RequestLine.parseURI
    rw [if_pos hmark, hparameters]
  have hlength := length_vars_parseGETParameters heap requestLine.requestURIParameters
  have hcut := (List.takeWhile_prefix (l := queryText vars) (· ≠ 0)).sublist.count_le 38
  have hcount := count_queryText hne hfree
  rw [hquery] at hlength
  refine ⟨{ requestLine := requestLine
            getVars := parseGETParameters heap URLVars.fresh requestLine.requestURIParameters },
    ?_, ?_, fun heq => ?_⟩
  · unfold ofText
    rw [hrequest]
    dsimp only
    rw [hline, Option.map_some, if_pos hmark]
  · dsimp only
    rw [hquery]
    omega
  · have hlengths := congrArg List.length heq
    rw [length_decodedVars, entries, List.length_map] at hlengths
    dsimp only at hlengths
    rw [hquery] at hlengths
    omega

/-- Of one variable none is left. -/
theorem query_lost_one :
    ∃ r, ofText (fun _ _ => 0) {} (bytesOf "GET /x?id=7 HTTP/1.0") = some r ∧
      r.getVars.vars.length < 1 ∧ entries r.getVars.vars ≠ decodedVars
        [(bytesOf "id", bytesOf "7")] :=
  query_lost (fun _ _ => 0)
    (show splitCompress _ (bytesOf "GET /x?id=7 HTTP/1.0") =
      bytesOf "GET" :: (bytesOf "/x" ++ 63 :: queryText [(bytesOf "id", bytesOf "7")]) ::
        [bytesOf "HTTP/1.0"] by decide +kernel)
    (by decide) (List.cons_ne_nil _ _) (by decide)

/-- Of two variables the last one is lost. -/
theorem not_query_kept :
    (ofText (fun _ _ => 0) {} (bytesOf "GET /x?id=7&go=on HTTP/1.0")).map
        (fun r => entries r.getVars.vars) = some [(bytesOf "ID", bytesOf "7")] ∧
      decodedVars [(bytesOf "id", bytesOf "7"), (bytesOf "go", bytesOf "on")] =
        [(bytesOf "GO", bytesOf "on"), (bytesOf "ID", bytesOf "7")] := by
  constructor
  · decide +kernel
  · decide +kernel

end RequestLineVars

end Mantids
