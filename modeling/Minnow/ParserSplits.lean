import Minnow.ParserCursor
import Minnow.Transition

/-!
Parsing a list of buffers against parsing their concatenation. The operations agree as
long as none of them meets a fault, and which ones do is read off the state before.
-/

namespace Minnow
open Transition
namespace ParserCursor

/-- The bytes left to read. -/
def remaining (c : ParserCursor) : Bytes := if c.moved then [] else c.parser.rest

/-- The operations end without a fault on the buffers, and read, flag and leave the same
as on their concatenation. -/
def AsOneBuffer (input : List Bytes) (ops : List ParserOp) : Prop :=
  ∃ vs c ws d, (ofBuffers input).execAll ops = .ok (vs, c) ∧
    (ofBuffers [input.flatten]).execAll ops = .ok (ws, d) ∧
    vs.map ParserValue.joined = ws.map ParserValue.joined ∧
    c.parser.error = d.parser.error ∧ c.remaining = d.remaining ∧ c.parser.size = d.parser.size

/-- The operation meets no fault. -/
def Clean (c : ParserCursor) : ParserOp → Prop
  | .integer n | .string n => c.parser.error = true ∨ c.parser.size < n ∨ c.Readable n
  | .removePrefix n => n = 0 ∨ c.parser.buffer = [] ∨ c.moved = false
  | .allRemaining | .allRemainingBuffer => c.parser.size = 0 ∨ c.moved = false

/-- The state an operation leaves; a fault leaves the state before it. -/
def step (c : ParserCursor) (op : ParserOp) : ParserCursor :=
  match c.exec op with
  | .ok (_, c) => c
  | .error _ => c

/-- The same read on two cursors, of which the second has a single buffer. -/
structure Same (c d : ParserCursor) : Prop where
  moved : c.moved = d.moved
  error : c.parser.error = d.parser.error
  size : c.parser.size = d.parser.size
  live : c.moved = false → c.parser.Sound ∧ d.parser.Sound ∧
    c.parser.rest = d.parser.rest ∧ d.parser.views.length ≤ 1
  spent : c.moved = true → d.parser.buffer = [] ∧ c.parser.size ≠ 0

theorem same_ofBuffers (input : List Bytes) :
    Same (ofBuffers input) (ofBuffers [input.flatten]) := by
  refine ⟨rfl, by simp [ofBuffers], by simp [ofBuffers], fun _ =>
    ⟨Parser.sound_ofBuffers input, Parser.sound_ofBuffers _, ?_, ?_⟩, fun h => by cases h⟩
  · rw [ofBuffers, ofBuffers, Parser.rest_ofBuffers, Parser.rest_ofBuffers,
      List.flatten_singleton]
  · rw [ofBuffers, Parser.views_ofBuffers]
    exact Nat.le_refl 1

theorem Same.remaining {c d : ParserCursor} (h : Same c d) : c.remaining = d.remaining := by
  rw [ParserCursor.remaining, ParserCursor.remaining, ← h.moved]
  cases hmoved : c.moved with
  | true => rfl
  | false => exact (h.live hmoved).2.2.1

theorem Same.takes {c d c' d' : ParserCursor} (h : Same c d) (hlive : c.moved = false) {n : Nat}
    (hc : Takes c n c') (hd : Takes d n d') : Same c' d' := by
  obtain ⟨-, -, hrest, hsingle⟩ := h.live hlive
  have hrest' : c'.parser.rest = d'.parser.rest := by
    rw [hc.removes.rest, hd.removes.rest, hrest]
  refine ⟨hc.moved.trans hd.moved.symm, ?_, ?_, fun _ =>
    ⟨hc.removes.sound, hd.removes.sound, hrest', ?_⟩, fun hmoved => ?_⟩
  · rw [hc.removes.error, hd.removes.error, h.error]
  · rw [hc.removes.sound.size, hd.removes.sound.size, hrest']
  · rw [hd.removes.views]
    exact (Views.length_drop_le _ _).trans hsingle
  · rw [hc.moved] at hmoved
    cases hmoved

theorem readable_of_clean {c : ParserCursor} {n : Nat}
    (h : c.parser.error = true ∨ c.parser.size < n ∨ c.Readable n)
    (herror : (c.checkSize n).parser.error ≠ true) : c.Readable n := by
  rw [Ne, checkSize_error, not_or] at herror
  exact (h.resolve_left herror.1).resolve_left herror.2

theorem Same.checkSize {c d : ParserCursor} (h : Same c d) (size : Nat) :
    Same (c.checkSize size) (d.checkSize size) := by
  by_cases hlt : c.parser.size < size
  · have hlt' : d.parser.size < size := h.size ▸ hlt
    simp only [ParserCursor.checkSize, Parser.checkSize, hlt, hlt', if_true]
    refine ⟨h.moved, rfl, h.size, fun hlive => ?_, h.spent⟩
    obtain ⟨hc, hd, hrest, hsingle⟩ := h.live hlive
    exact ⟨⟨hc.size, hc.skip⟩, ⟨hd.size, hd.skip⟩, hrest, hsingle⟩
  · have hlt' : ¬ d.parser.size < size := h.size ▸ hlt
    simp only [ParserCursor.checkSize, Parser.checkSize, hlt, hlt', if_false]
    exact h

/-- On a single buffer whatever is counted can be read. -/
theorem Same.readable {c d : ParserCursor} (h : Same c d) {n : Nat} (hn : n ≤ c.parser.size)
    (hread : c.Readable n) : d.Readable n := by
  cases hread with
  | inl hzero =>
      subst hzero
      exact Or.inl rfl
  | inr hlength =>
      obtain ⟨hlive, -⟩ := hlength
      obtain ⟨hc, -, hrest, hsingle⟩ := h.live hlive
      rw [hc.size, hrest, Parser.rest] at hn
      rcases hviews : d.parser.views with _ | ⟨view, more⟩
      · left
        simpa [hviews] using hn
      · right
        rw [hviews] at hn hsingle
        obtain rfl : more = [] := by
          simpa using hsingle
        refine ⟨h.moved ▸ hlive, ?_⟩
        rw [hviews]
        exact Views.filled_of_le_head [] (by simpa using hn)

theorem concat_eq (bs : List Bytes) : concat bs = bs.flatten := by
  have hfold (bs : List Bytes) (out : Bytes) : bs.foldl (· ++ ·) out = out ++ bs.flatten := by
    induction bs generalizing out with
    | nil => simp
    | cons b bs ih => rw [List.foldl_cons, ih, List.flatten_cons, List.append_assoc]
  match bs with
  | [] => rfl
  | [b] => simp [concat]
  | b :: b' :: bs => exact (hfold (b :: b' :: bs) []).trans (List.nil_append _)

/-- What `dump_all` gives on a cursor whose buffers are still there. -/
theorem dumpAll_live {c : ParserCursor} (hlive : c.moved = false) (hs : c.parser.Sound)
    (hsize : c.parser.size ≠ 0) : ∃ out front rest, c.parser.buffer = front :: rest ∧
      out.flatten = c.parser.rest ∧
      c.dumpAll = .ok (out, { parser := { c.parser with buffer := rest }, moved := true }) := by
  cases hbuffer : c.parser.buffer with
  | nil =>
      have := hs.size
      rw [Parser.rest, Parser.views, hbuffer] at this
      exact absurd this hsize
  | cons front rest =>
      refine ⟨(if c.parser.skip ≠ 0 then front.drop c.parser.skip else front) :: rest, front,
        rest, rfl, ?_, ?_⟩
      · by_cases hskip : c.parser.skip = 0 <;> simp [Parser.rest, Parser.views, hbuffer, hskip]
      · simp only [dumpAll, hsize, if_false, hbuffer, hlive, Bool.false_eq_true]

theorem Same.dumpAll {c d : ParserCursor} (h : Same c d)
    (hclean : c.parser.size = 0 ∨ c.moved = false) :
    ∃ bs c' ws d', c.dumpAll = .ok (bs, c') ∧ d.dumpAll = .ok (ws, d') ∧
      bs.flatten = ws.flatten ∧ Same c' d' := by
  by_cases hsize : c.parser.size = 0
  · have hsize' : d.parser.size = 0 := h.size ▸ hsize
    refine ⟨[], c, [], d, ?_, ?_, rfl, h⟩
    · rw [ParserCursor.dumpAll, if_pos hsize]
    · rw [ParserCursor.dumpAll, if_pos hsize']
  · have hlive := hclean.resolve_left hsize
    obtain ⟨hc, hd, hrest, hsingle⟩ := h.live hlive
    obtain ⟨bs, front, rest, hbuffer, hflat, hok⟩ := dumpAll_live hlive hc hsize
    obtain ⟨ws, front', rest', hbuffer', hflat', hok'⟩ :=
      dumpAll_live (h.moved ▸ hlive) hd (h.size ▸ hsize)
    have hlast : rest' = [] := by
      rw [Parser.views, hbuffer'] at hsingle
      simpa using hsingle
    refine ⟨bs, _, ws, _, hok, hok', by rw [hflat, hflat', hrest], rfl, h.error, h.size,
      fun hmoved => ?_, fun _ => ⟨hlast, hsize⟩⟩
    cases hmoved

theorem Same.integerLoop {c d : ParserCursor} (h : Same c d) {n : Nat}
    (hn : n ≤ c.parser.size) (hread : c.Readable n) :
    ∃ k c' d', integerLoop n 0 c = .ok (k, c') ∧ integerLoop n 0 d = .ok (k, d') ∧
      Same c' d' := by
  rcases hread with rfl | ⟨hlive, hfilled⟩
  · exact ⟨0, c, d, rfl, rfl, h⟩
  rcases h.readable hn (Or.inr ⟨hlive, hfilled⟩) with rfl | ⟨hlive', hfilled'⟩
  · exact ⟨0, c, d, rfl, rfl, h⟩
  obtain ⟨hc, hd, hrest, -⟩ := h.live hlive
  obtain ⟨c', hok, htakes⟩ := integerLoop_takes n 0 hlive hc hfilled
  obtain ⟨d', hok', htakes'⟩ := integerLoop_takes n 0 hlive' hd hfilled'
  exact ⟨_, c', d', hok, by rw [hrest]; exact hok', h.takes hlive htakes htakes'⟩

theorem Same.stringLoop {c d : ParserCursor} (h : Same c d) {n : Nat}
    (hn : n ≤ c.parser.size) (hread : c.Readable n) :
    ∃ data c' d', stringLoop n n [] c = some (.ok (data, c')) ∧
      stringLoop n n [] d = some (.ok (data, d')) ∧ Same c' d' := by
  rcases hread with rfl | ⟨hlive, hfilled⟩
  · exact ⟨[], c, d, rfl, rfl, h⟩
  rcases h.readable hn (Or.inr ⟨hlive, hfilled⟩) with rfl | ⟨hlive', hfilled'⟩
  · exact ⟨[], c, d, rfl, rfl, h⟩
  obtain ⟨hc, hd, hrest, -⟩ := h.live hlive
  obtain ⟨c', hok, htakes⟩ := stringLoop_takes n [] hlive hc (Nat.le_refl n) hfilled
  obtain ⟨d', hok', htakes'⟩ := stringLoop_takes n [] hlive' hd (Nat.le_refl n) hfilled'
  exact ⟨_, c', d', hok, by rw [hrest]; exact hok', h.takes hlive htakes htakes'⟩

theorem Same.removePrefix {c d : ParserCursor} (h : Same c d) {n : Nat}
    (hclean : n = 0 ∨ c.parser.buffer = [] ∨ c.moved = false) :
    ∃ c' d', c.removePrefix n = .ok c' ∧ d.removePrefix n = .ok d' ∧ Same c' d' := by
  cases hmoved : c.moved with
  | false =>
      obtain ⟨hc, hd, -, -⟩ := h.live hmoved
      obtain ⟨c', hok, htakes⟩ := removePrefix_live hmoved hc n
      obtain ⟨d', hok', htakes'⟩ := removePrefix_live (h.moved ▸ hmoved) hd n
      exact ⟨c', d', hok, hok', h.takes hmoved htakes htakes'⟩
  | true =>
      refine ⟨c, d, ?_, removePrefix_nil (h.spent hmoved).1 n, h⟩
      rcases hclean with rfl | hnil | hlive
      · exact removePrefix_zero c
      · exact removePrefix_nil hnil n
      · rw [hmoved] at hlive
        cases hlive

/-- A read that the size check refuses. -/
theorem exec_unread {c : ParserCursor} {n : Nat} {op : ParserOp}
    (hop : op = .integer n ∨ op = .string n) (herror : (c.checkSize n).parser.error = true) :
    c.exec op = .ok (.unread, c.checkSize n) := by
  cases hop with
  | inl hinteger => rw [hinteger, exec, if_pos herror]
  | inr hstring => rw [hstring, exec, if_pos herror]

/-- An operation that meets no fault reads the same on both cursors. -/
theorem exec_same {c d : ParserCursor} (h : Same c d) {op : ParserOp} (hclean : c.Clean op) :
    ∃ v c' w d', c.exec op = .ok (v, c') ∧ d.exec op = .ok (w, d') ∧ v.joined = w.joined ∧
      Same c' d' := by
  cases op with
  | integer n =>
      have hcheck := h.checkSize n
      by_cases herror : (c.checkSize n).parser.error = true
      · exact ⟨_, _, _, _, exec_unread (Or.inl rfl) herror,
          exec_unread (Or.inl rfl) (hcheck.error ▸ herror), rfl, hcheck⟩
      · have herror' : (d.checkSize n).parser.error ≠ true := hcheck.error ▸ herror
        obtain ⟨hsame, hsize⟩ := checkSize_ok herror
        obtain ⟨k, c', d', hok, hok', hsame'⟩ := h.integerLoop hsize
          (readable_of_clean hclean herror)
        refine ⟨.number k, c', .number k, d', ?_, ?_, rfl, hsame'⟩
        · rw [exec, if_neg herror, hsame, hok]
          rfl
        · rw [exec, if_neg herror', (checkSize_ok herror').1, hok']
          rfl
  | string n =>
      have hcheck := h.checkSize n
      by_cases herror : (c.checkSize n).parser.error = true
      · exact ⟨_, _, _, _, exec_unread (Or.inr rfl) herror,
          exec_unread (Or.inr rfl) (hcheck.error ▸ herror), rfl, hcheck⟩
      · have herror' : (d.checkSize n).parser.error ≠ true := hcheck.error ▸ herror
        obtain ⟨hsame, hsize⟩ := checkSize_ok herror
        obtain ⟨data, c', d', hok, hok', hsame'⟩ := h.stringLoop hsize
          (readable_of_clean hclean herror)
        refine ⟨.bytes data, c', .bytes data, d', ?_, ?_, rfl, hsame'⟩
        · rw [exec, if_neg herror, hsame, hok]
          rfl
        · rw [exec, if_neg herror', (checkSize_ok herror').1, hok']
          rfl
  | removePrefix n =>
      obtain ⟨c', d', hok, hok', hsame⟩ := h.removePrefix hclean
      refine ⟨.unread, c', .unread, d', ?_, ?_, rfl, hsame⟩
      · rw [exec, hok]
        rfl
      · rw [exec, hok']
        rfl
  | allRemaining =>
      obtain ⟨bs, c', ws, d', hok, hok', hflat, hsame⟩ := h.dumpAll hclean
      refine ⟨.buffers bs, c', .buffers ws, d', ?_, ?_, congrArg ParserValue.bytes hflat, hsame⟩
      · rw [exec, hok]
        rfl
      · rw [exec, hok']
        rfl
  | allRemainingBuffer =>
      obtain ⟨bs, c', ws, d', hok, hok', hflat, hsame⟩ := h.dumpAll hclean
      refine ⟨.bytes (concat bs), c', .bytes (concat ws), d', ?_, ?_, ?_, hsame⟩
      · rw [exec, hok]
        rfl
      · rw [exec, hok']
        rfl
      · rw [concat_eq, concat_eq, hflat]

theorem clean_of_dumpAll {c : ParserCursor} {r : List Bytes × ParserCursor}
    (h : c.dumpAll = .ok r) : c.parser.size = 0 ∨ c.moved = false := by
  rw [ParserCursor.dumpAll] at h
  split at h
  · next hzero => exact Or.inl hzero
  · split at h
    · cases h
    · split at h
      · cases h
      · next hmoved => exact Or.inr (Bool.eq_false_iff.mpr hmoved)

/-- An operation that ends without a fault has met none. -/
theorem clean_of_exec {c : ParserCursor} (hs : c.moved = false → c.parser.Sound)
    {op : ParserOp} {r : ParserValue × ParserCursor} (h : c.exec op = .ok r) : c.Clean op := by
  have hchecked (n : Nat) (hread : (c.checkSize n).parser.error ≠ true → c.Readable n) :
      c.parser.error = true ∨ c.parser.size < n ∨ c.Readable n := by
    by_cases herror : (c.checkSize n).parser.error = true
    · cases (checkSize_error c n).mp herror with
      | inl h => exact Or.inl h
      | inr h => exact Or.inr (Or.inl h)
    · exact Or.inr (Or.inr (hread herror))
  cases op with
  | integer n =>
      apply hchecked
      intro herror
      rw [exec, if_neg herror, (checkSize_ok herror).1] at h
      cases hloop : integerLoop n 0 c with
      | error e => simp [hloop, Except.map] at h
      | ok r => exact integerLoop_readable hs hloop
  | string n =>
      apply hchecked
      intro herror
      rw [exec, if_neg herror, (checkSize_ok herror).1] at h
      rcases hloop : stringLoop n n [] c with _ | (e | r)
      · simp [hloop] at h
      · simp [hloop, Except.map] at h
      · exact stringLoop_readable hs hloop
  | removePrefix n =>
      rw [exec, removePrefix] at h
      split at h
      · cases h
      · next hfault =>
          by_cases hzero : n = 0
          · exact Or.inl hzero
          by_cases hnil : c.parser.buffer = []
          · exact Or.inr (Or.inl hnil)
          · exact Or.inr (Or.inr (Bool.eq_false_iff.mpr fun hm => hfault ⟨hzero, hnil, hm⟩))
  | allRemaining =>
      cases hdump : c.dumpAll with
      | error e => simp [exec, hdump, Except.map] at h
      | ok r => exact clean_of_dumpAll hdump
  | allRemainingBuffer =>
      cases hdump : c.dumpAll with
      | error e => simp [exec, hdump, Except.map] at h
      | ok r => exact clean_of_dumpAll hdump

theorem execAll_iff {c d : ParserCursor} (h : Same c d) (ops : List ParserOp) :
    (∃ vs c' ws d', c.execAll ops = .ok (vs, c') ∧ d.execAll ops = .ok (ws, d') ∧
      vs.map ParserValue.joined = ws.map ParserValue.joined ∧
      c'.parser.error = d'.parser.error ∧ c'.remaining = d'.remaining ∧
      c'.parser.size = d'.parser.size) ↔ Along step Clean c ops := by
  induction ops generalizing c d with
  | nil =>
      refine ⟨fun _ => trivial, fun _ => ?_⟩
      exact ⟨[], c, [], d, rfl, rfl, rfl, h.error, h.remaining, h.size⟩
  | cons op ops ih =>
      rw [along_cons]
      constructor
      · rintro ⟨vs, c', ws, d', hc, hd, hvs, hend⟩
        cases hexec : c.exec op with
        | error e => simp [execAll, hexec] at hc
        | ok r =>
            have hclean := clean_of_exec (fun hlive => (h.live hlive).1) hexec
            obtain ⟨v, c₁, w, d₁, hv, hw, -, hsame⟩ := exec_same h hclean
            have hstep : c.step op = c₁ := by rw [step, hv]
            rw [hstep]
            refine ⟨hclean, (ih hsame).mp ?_⟩
            simp only [execAll, hv] at hc
            simp only [execAll, hw] at hd
            cases hcs : c₁.execAll ops with
            | error e => simp [hcs, Except.map] at hc
            | ok rc =>
                cases hds : d₁.execAll ops with
                | error e => simp [hds, Except.map] at hd
                | ok rd =>
                    simp only [hcs, Except.map, Except.ok.injEq, Prod.mk.injEq] at hc
                    simp only [hds, Except.map, Except.ok.injEq, Prod.mk.injEq] at hd
                    obtain ⟨rfl, rfl⟩ := hc
                    obtain ⟨rfl, rfl⟩ := hd
                    exact ⟨rc.1, rc.2, rd.1, rd.2, rfl, rfl, (List.cons.inj hvs).2, hend⟩
      · rintro ⟨hclean, hrest⟩
        obtain ⟨v, c₁, w, d₁, hv, hw, hvw, hsame⟩ := exec_same h hclean
        have hstep : c.step op = c₁ := by rw [step, hv]
        rw [hstep] at hrest
        obtain ⟨vs, c', ws, d', hc, hd, hvs, hend⟩ := (ih hsame).mpr hrest
        refine ⟨v :: vs, c', w :: ws, d', ?_, ?_, ?_, hend⟩
        · simp only [execAll, hv, hc]
          rfl
        · simp only [execAll, hw, hd]
          rfl
        · rw [List.map_cons, List.map_cons, hvw, hvs]

/-- The serializer puts an empty buffer in front of a buffer; an integer read there takes
the first character of an empty view. -/
theorem empty_buffer_in_front :
    ¬ AsOneBuffer (({} : Serializer).appendBuffer [65]).takeOutput [.integer 1] := by
  rintro ⟨vs, c, ws, d, h, -⟩
  cases h

/-- The operations run without a fault, and as on a single buffer, exactly when each of
them is clean: no empty buffer stands in the way of what is read, and nothing counted is
read, removed or dumped after the buffers have been dumped. -/
theorem as_one_buffer_iff (input : List Bytes) (ops : List ParserOp) :
    AsOneBuffer input ops ↔ Along step Clean (ofBuffers input) ops :=
  execAll_iff (same_ofBuffers input) ops

end ParserCursor
end Minnow
