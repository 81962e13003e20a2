import Minnow.ParserViews

/-!
The operations of a Parser with the faults its unchecked accesses run into. An empty
buffer in front leaves no first character to take and no progress to make, and
`dump_all` leaves the deque without its front and with null pointers behind it.
-/

namespace Minnow

/-- The first character of an empty view, a peek at an exhausted list, a buffer that has
been moved out, the front of an empty deque, or a loop that never ends. -/
inductive ParserFault where
  | emptyView
  | exhausted
  | movedFrom
  | emptyDeque
  | endless
  deriving Repr, DecidableEq

/-- The operations. An integer is given by the size of its type. -/
inductive ParserOp where
  | integer (sizeof : Nat)
  | string (len : Nat)
  | removePrefix (n : Nat)
  | allRemaining
  | allRemainingBuffer
  deriving Repr, DecidableEq

inductive ParserValue where
  | unread
  | number (n : Nat)
  | bytes (data : Bytes)
  | buffers (data : List Bytes)
  deriving Repr, DecidableEq

/-- The value without the boundaries of its buffers. -/
def ParserValue.joined : ParserValue → ParserValue
  | .buffers data => .bytes data.flatten
  | v => v

/-- A Parser, and whether `dump_all` has moved the buffers out of its deque. -/
structure ParserCursor where
  parser : Parser
  moved : Bool := false
  deriving Repr, DecidableEq

namespace ParserCursor

def ofBuffers (input : List Bytes) : ParserCursor := { parser := Parser.ofBuffers input }

def peek (c : ParserCursor) : Except ParserFault Bytes :=
  match c.parser.buffer with
  | [] => .error .exhausted
  | front :: _ => if c.moved then .error .movedFrom else .ok (front.drop c.parser.skip)

/-- The loop peeks only if it is entered. -/
def removePrefix (c : ParserCursor) (len : Nat) : Except ParserFault ParserCursor :=
  if len ≠ 0 ∧ c.parser.buffer ≠ [] ∧ c.moved = true then .error .movedFrom
  else .ok { c with parser := c.parser.removePrefix len }

def integerLoop : Nat → Nat → ParserCursor → Except ParserFault (Nat × ParserCursor)
  | 0, out, c => .ok (out, c)
  | turns + 1, out, c =>
      match c.peek with
      | .error e => .error e
      | .ok [] => .error .emptyView
      | .ok (b :: _) =>
          match c.removePrefix 1 with
          | .error e => .error e
          | .ok c => integerLoop turns (out <<< 8 ||| b.toNat) c

/-- The loop of `string` with `remaining` bytes to go; `none` if the turns run out. -/
def stringLoop : Nat → Nat → Bytes → ParserCursor →
    Option (Except ParserFault (Bytes × ParserCursor))
  | _, 0, out, c => some (.ok (out, c))
  | 0, _ + 1, _, _ => none
  | turns + 1, remaining + 1, out, c =>
      match c.peek with
      | .error e => some (.error e)
      | .ok view =>
          let view := view.take (remaining + 1)
          match c.removePrefix view.length with
          | .error e => some (.error e)
          | .ok c => stringLoop turns (remaining + 1 - view.length) (out ++ view) c

def checkSize (c : ParserCursor) (size : Nat) : ParserCursor :=
  { c with parser := c.parser.checkSize size }

def dumpAll (c : ParserCursor) : Except ParserFault (List Bytes × ParserCursor) :=
  if c.parser.size = 0 then .ok ([], c)
  else
    match c.parser.buffer with
    | [] => .error .emptyDeque
    | front :: rest =>
        if c.moved then .error .movedFrom
        else
          .ok ((if c.parser.skip ≠ 0 then front.drop c.parser.skip else front) :: rest,
            { parser := { c.parser with buffer := rest }, moved := true })

/-- One string of several buffers. -/
def concat : List Bytes → Bytes
  | [b] => b
  | bs => bs.foldl (· ++ ·) []

/-- As many turns of the string loop as there are bytes to read are enough, unless it
never ends. -/
def exec (c : ParserCursor) : ParserOp → Except ParserFault (ParserValue × ParserCursor)
  | .integer sizeof =>
      let c := c.checkSize sizeof
      if c.parser.error then .ok (.unread, c)
      else (integerLoop sizeof 0 c).map fun r => (.number r.1, r.2)
  | .string len =>
      let c := c.checkSize len
      if c.parser.error then .ok (.unread, c)
      else
        match stringLoop len len [] c with
        | none => .error .endless
        | some r => r.map fun r => (.bytes r.1, r.2)
  | .removePrefix n => (c.removePrefix n).map fun c => (.unread, c)
  | .allRemaining => c.dumpAll.map fun r => (.buffers r.1, r.2)
  | .allRemainingBuffer => c.dumpAll.map fun r => (.bytes (concat r.1), r.2)

/-- The operations one after another, up to the first fault. -/
def execAll (c : ParserCursor) :
    List ParserOp → Except ParserFault (List ParserValue × ParserCursor)
  | [] => .ok ([], c)
  | op :: ops =>
      match c.exec op with
      | .error e => .error e
      | .ok (v, c) => (c.execAll ops).map fun r => (v :: r.1, r.2)

/-- The next `n` bytes can be taken: nothing has been moved out and no empty buffer
stands before the last of them. -/
def Readable (c : ParserCursor) (n : Nat) : Prop :=
  n = 0 ∨ c.moved = false ∧ Views.Filled n c.parser.views

/-- What an operation leaves after taking `n` bytes. -/
structure Takes (c : ParserCursor) (n : Nat) (c' : ParserCursor) : Prop where
  moved : c'.moved = false
  removes : c.parser.Removes n c'.parser

theorem peek_of_views {c : ParserCursor} (hlive : c.moved = false) {view : Bytes}
    {more : List Bytes} (h : c.parser.views = view :: more) : c.peek = .ok view := by
  rw [Parser.views] at h
  cases hbuffer : c.parser.buffer with
  | nil => simp [hbuffer] at h
  | cons front rest =>
      simp only [hbuffer] at h
      simp only [peek, hbuffer, hlive, Bool.false_eq_true, if_false]
      exact congrArg Except.ok (List.cons.inj h).1

theorem peek_ok {c : ParserCursor} {view : Bytes} (h : c.peek = .ok view) :
    c.moved = false ∧ ∃ more, c.parser.views = view :: more := by
  rw [peek] at h
  split at h
  · cases h
  · next hbuffer =>
      split at h
      · cases h
      · next hmoved =>
          cases h
          exact ⟨Bool.eq_false_iff.mpr hmoved, _, by rw [Parser.views, hbuffer]⟩

theorem removePrefix_live {c : ParserCursor} (hlive : c.moved = false) (hs : c.parser.Sound)
    (len : Nat) : ∃ c', c.removePrefix len = .ok c' ∧ Takes c len c' := by
  refine ⟨{ c with parser := c.parser.removePrefix len }, ?_, hlive,
    Parser.removePrefix_removes hs len⟩
  rw [removePrefix, if_neg]
  simp [hlive]

theorem Takes.refl {c : ParserCursor} (hlive : c.moved = false) (hs : c.parser.Sound) :
    Takes c 0 c := ⟨hlive, Parser.Removes.refl hs⟩

theorem Takes.trans {c d e : ParserCursor} {a b : Nat} (h : Takes c a d) (k : Takes d b e) :
    Takes c (a + b) e := ⟨k.moved, h.removes.trans k.removes⟩

theorem integerLoop_takes (turns out : Nat) {c : ParserCursor} (hlive : c.moved = false)
    (hs : c.parser.Sound) (hfilled : Views.Filled turns c.parser.views) :
    ∃ c', integerLoop turns out c =
        .ok (BigEndian.decode out (c.parser.rest.take turns), c') ∧ Takes c turns c' := by
  induction turns generalizing out c with
  | zero => exact ⟨c, rfl, Takes.refl hlive hs⟩
  | succ turns ih =>
      obtain ⟨b, view, more, hviews⟩ := hfilled.head
      obtain ⟨d, hremove, htakes⟩ := removePrefix_live hlive hs 1
      obtain ⟨c', hloop, hmore⟩ := ih (out <<< 8 ||| b.toNat) htakes.moved
        htakes.removes.sound (by rw [htakes.removes.views]; exact hfilled.2)
      refine ⟨c', ?_, by rw [Nat.add_comm]; exact htakes.trans hmore⟩
      rw [integerLoop, peek_of_views hlive hviews]
      simp only [hremove, hloop]
      rw [htakes.removes.rest, Parser.rest, hviews]
      rfl

theorem integerLoop_readable {turns out : Nat} {c : ParserCursor}
    (hs : c.moved = false → c.parser.Sound) {r : Nat × ParserCursor}
    (h : integerLoop turns out c = .ok r) : c.Readable turns := by
  induction turns generalizing out c with
  | zero => exact Or.inl rfl
  | succ turns ih =>
      right
      cases hpeek : c.peek with
      | error e => simp [integerLoop, hpeek] at h
      | ok view =>
          obtain ⟨hlive, more, hviews⟩ := peek_ok hpeek
          obtain ⟨d, hremove, htakes⟩ := removePrefix_live hlive (hs hlive) 1
          cases view with
          | nil => simp [integerLoop, hpeek] at h
          | cons b view =>
              simp only [integerLoop, hpeek, hremove] at h
              refine ⟨hlive, by rw [hviews]; exact List.cons_ne_nil b view, ?_⟩
              rw [← htakes.removes.views]
              cases ih (fun _ => htakes.removes.sound) h with
              | inl hzero =>
                  subst hzero
                  trivial
              | inr hviewed =>
                  obtain ⟨-, hfilled⟩ := hviewed
                  exact hfilled

theorem stringLoop_takes (turns : Nat) {n : Nat} (out : Bytes) {c : ParserCursor}
    (hlive : c.moved = false) (hs : c.parser.Sound) (hturns : n ≤ turns)
    (hfilled : Views.Filled n c.parser.views) :
    ∃ c', stringLoop turns n out c = some (.ok (out ++ c.parser.rest.take n, c')) ∧
      Takes c n c' := by
  induction turns generalizing n out c with
  | zero =>
      obtain rfl : n = 0 := by omega
      exact ⟨c, by simp [stringLoop], Takes.refl hlive hs⟩
  | succ turns ih =>
      cases n with
      | zero => exact ⟨c, by simp [stringLoop], Takes.refl hlive hs⟩
      | succ n =>
          obtain ⟨b, view, more, hviews⟩ := hfilled.head
          obtain ⟨len, hlen⟩ : ∃ len, len = ((b :: view).take (n + 1)).length := ⟨_, rfl⟩
          have hmin : len = min (n + 1) (view.length + 1) := by
            rw [hlen, List.length_take, List.length_cons]
          obtain ⟨d, hremove, htakes⟩ := removePrefix_live hlive hs len
          have hsplit : Views.Filled (len + (n + 1 - len)) c.parser.views := by
            rwa [show len + (n + 1 - len) = n + 1 by omega]
          obtain ⟨c', hloop, hmore⟩ := ih (n := n + 1 - len) (out ++ (b :: view).take (n + 1))
            htakes.moved htakes.removes.sound (by omega)
            (by rw [htakes.removes.views]; exact (Views.filled_add.mp hsplit).2)
          have htotal := htakes.trans hmore
          rw [show len + (n + 1 - len) = n + 1 by omega] at htotal
          refine ⟨c', ?_, htotal⟩
          rw [stringLoop, peek_of_views hlive hviews]
          simp only [← hlen, hremove, hloop, htakes.removes.rest, List.append_assoc]
          congr 4
          rw [Parser.rest, hviews, List.flatten_cons]
          cases Nat.le_total (n + 1) (view.length + 1) with
          | inl hle =>
              rw [show n + 1 - len = 0 by omega, List.take_zero, List.append_nil,
                List.take_append_of_le_length (by simpa using hle)]
          | inr hle =>
              have hfront : (b :: view).take (n + 1) = b :: view :=
                List.take_of_length_le (by simpa using hle)
              rw [show len = (b :: view).length by simp only [List.length_cons]; omega,
                List.drop_left, List.take_append, hfront]

theorem stringLoop_readable {turns n : Nat} {out : Bytes} {c : ParserCursor}
    (hs : c.moved = false → c.parser.Sound) {r : Bytes × ParserCursor}
    (h : stringLoop turns n out c = some (.ok r)) : c.Readable n := by
  induction turns generalizing n out c with
  | zero =>
      cases n with
      | zero => exact Or.inl rfl
      | succ n => simp [stringLoop] at h
  | succ turns ih =>
      cases n with
      | zero => exact Or.inl rfl
      | succ n =>
          right
          cases hpeek : c.peek with
          | error e => simp [stringLoop, hpeek] at h
          | ok view =>
              obtain ⟨hlive, more, hviews⟩ := peek_ok hpeek
              obtain ⟨d, hremove, htakes⟩ :=
                removePrefix_live hlive (hs hlive) (view.take (n + 1)).length
              simp only [stringLoop, hpeek, hremove] at h
              have hlen : (view.take (n + 1)).length ≤ n + 1 := List.length_take_le _ _
              have hrest : Views.Filled (n + 1 - (view.take (n + 1)).length)
                  (Views.drop (view.take (n + 1)).length c.parser.views) := by
                rw [← htakes.removes.views]
                cases ih (fun _ => htakes.removes.sound) h with
                | inl hzero =>
                    rw [hzero]
                    trivial
                | inr hviewed =>
                    obtain ⟨-, hfilled⟩ := hviewed
                    exact hfilled
              have hfront : Views.Filled (view.take (n + 1)).length c.parser.views := by
                rw [hviews]
                exact Views.filled_of_le_head more (List.length_take_le' _ _)
              have hboth := Views.filled_add.mpr ⟨hfront, hrest⟩
              rw [show (view.take (n + 1)).length + (n + 1 - (view.take (n + 1)).length) = n + 1
                by omega] at hboth
              exact ⟨hlive, hboth⟩

theorem removePrefix_zero (c : ParserCursor) : c.removePrefix 0 = .ok c := by
  have hsame : c.parser.removePrefix 0 = c.parser := by
    rw [Parser.removePrefix]
    cases c.parser with
    | mk size buffer skip error => cases buffer <;> simp only [Parser.removeLoop]
  rw [removePrefix, if_neg (by simp), hsame]

theorem removePrefix_nil {c : ParserCursor} (h : c.parser.buffer = []) (n : Nat) :
    c.removePrefix n = .ok c := by
  have hsame : c.parser.removePrefix n = c.parser := by
    rw [Parser.removePrefix, h]
    cases n <;> simp only [Parser.removeLoop, ← h]
  rw [removePrefix, if_neg (by simp [h]), hsame]

/-- A string loop that as many turns as bytes do not end is never ended. -/
theorem stringLoop_endless {turns n : Nat} {out : Bytes} {c : ParserCursor}
    (hturns : n ≤ turns) (h : stringLoop turns n out c = none) (more : Nat) :
    stringLoop more n out c = none := by
  induction turns generalizing n out c more with
  | zero =>
      obtain rfl : n = 0 := by omega
      simp [stringLoop] at h
  | succ turns ih =>
      cases n with
      | zero => simp [stringLoop] at h
      | succ n =>
          cases hpeek : c.peek with
          | error e => simp [stringLoop, hpeek] at h
          | ok view =>
              cases view with
              | nil =>
                  -- the turn that copies nothing comes back to the same state
                  have hturn (k : Nat) :
                      stringLoop (k + 1) (n + 1) out c = stringLoop k (n + 1) out c := by
                    simp [stringLoop, hpeek, removePrefix_zero]
                  induction more with
                  | zero => rfl
                  | succ k ihk => rw [hturn, ihk]
              | cons b view =>
                  cases more with
                  | zero => rfl
                  | succ more =>
                      simp only [stringLoop, hpeek] at h ⊢
                      split at h
                      · cases h
                      · exact ih (by simp only [List.take_succ_cons, List.length_cons]; omega) h _

theorem checkSize_error (c : ParserCursor) (size : Nat) :
    (c.checkSize size).parser.error = true ↔ c.parser.error = true ∨ c.parser.size < size := by
  rw [checkSize, Parser.checkSize]
  split
  · next h => simp [h]
  · next h => simp [h]

theorem checkSize_ok {c : ParserCursor} {size : Nat} (h : (c.checkSize size).parser.error ≠ true) :
    c.checkSize size = c ∧ size ≤ c.parser.size := by
  have hsize : ¬ c.parser.size < size := fun hlt => h ((checkSize_error c size).mpr (Or.inr hlt))
  refine ⟨?_, Nat.not_lt.mp hsize⟩
  rw [checkSize, Parser.checkSize, if_neg hsize]

theorem peek_error {c : ParserCursor} {e : ParserFault} (h : c.peek = .error e) :
    e ≠ .endless := by
  rintro rfl
  rw [peek] at h
  split at h
  · cases h
  · split at h <;> cases h

theorem removePrefix_error {c : ParserCursor} {n : Nat} {e : ParserFault}
    (h : c.removePrefix n = .error e) : e ≠ .endless := by
  rintro rfl
  rw [removePrefix] at h
  split at h <;> cases h

theorem stringLoop_error {turns n : Nat} {out : Bytes} {c : ParserCursor} {e : ParserFault}
    (h : stringLoop turns n out c = some (.error e)) : e ≠ .endless := by
  induction turns generalizing n out c with
  | zero => cases n <;> simp [stringLoop] at h
  | succ turns ih =>
      cases n with
      | zero => simp [stringLoop] at h
      | succ n =>
          cases hpeek : c.peek with
          | error f =>
              simp only [stringLoop, hpeek, Option.some.injEq, Except.error.injEq] at h
              exact h ▸ peek_error hpeek
          | ok view =>
              cases hremove : c.removePrefix (view.take (n + 1)).length with
              | error f =>
                  simp only [stringLoop, hpeek, hremove, Option.some.injEq,
                    Except.error.injEq] at h
                  exact h ▸ removePrefix_error hremove
              | ok d =>
                  simp only [stringLoop, hpeek, hremove] at h
                  exact ih h

/-- The fault `endless` is a loop that no number of turns ends. -/
theorem exec_endless {c : ParserCursor} {n : Nat} (h : c.exec (.string n) = .error .endless)
    (turns : Nat) : stringLoop turns n [] c = none := by
  rw [exec] at h
  split at h
  · cases h
  · next herror =>
      rw [(checkSize_ok herror).1] at h
      rcases hloop : stringLoop n n [] c with _ | (e | r)
      · exact stringLoop_endless (Nat.le_refl n) hloop turns
      · simp only [hloop, Except.map, Except.error.injEq] at h
        exact absurd h (stringLoop_error hloop)
      · simp [hloop, Except.map] at h

theorem peek_agrees {c : ParserCursor} {view : Bytes} (h : c.peek = .ok view) :
    c.parser.peek = .ok view := by
  obtain ⟨-, more, hviews⟩ := peek_ok h
  exact Parser.peek_of_views hviews

theorem removePrefix_agrees {c c' : ParserCursor} {n : Nat} (h : c.removePrefix n = .ok c') :
    c.parser.removePrefix n = c'.parser := by
  rw [removePrefix] at h
  split at h
  · cases h
  · cases h
    rfl

theorem integerLoop_agrees {turns out k : Nat} {c c' : ParserCursor}
    (h : integerLoop turns out c = .ok (k, c')) :
    Parser.integerLoop turns out c.parser = .ok (k, c'.parser) := by
  induction turns generalizing out c with
  | zero =>
      cases h
      rfl
  | succ turns ih =>
      rw [integerLoop] at h
      split at h
      · cases h
      · cases h
      · next b view hpeek =>
          split at h
          · cases h
          · next d hremove =>
              simp only [Parser.integerLoop, peek_agrees hpeek, List.headD_cons,
                removePrefix_agrees hremove]
              exact ih h

/-- Without a fault an integer is read as `Parser.integer` reads it. -/
theorem integer_agrees {α : Type} [UnsignedIntegral α] (out : α) {c c' : ParserCursor}
    {v : ParserValue} (h : c.exec (.integer (UnsignedIntegral.sizeof α)) = .ok (v, c')) :
    (v = .unread ∧ Parser.integer out c.parser = .ok (out, c'.parser)) ∨
      ∃ n, v = .number n ∧
        Parser.integer out c.parser = .ok (UnsignedIntegral.ofNat n, c'.parser) := by
  have hcheck : (c.checkSize (UnsignedIntegral.sizeof α)).parser =
      c.parser.checkSize (UnsignedIntegral.sizeof α) := rfl
  rw [exec] at h
  split at h
  · next herror =>
      cases h
      rw [hcheck] at herror
      exact Or.inl ⟨rfl, by simp only [Parser.integer, herror, if_true, hcheck]⟩
  · next herror =>
      rw [hcheck] at herror
      cases hloop : integerLoop (UnsignedIntegral.sizeof α) 0
          (c.checkSize (UnsignedIntegral.sizeof α)) with
      | error e => simp [hloop, Except.map] at h
      | ok r =>
          simp only [hloop, Except.map, Except.ok.injEq, Prod.mk.injEq] at h
          obtain ⟨rfl, rfl⟩ := h
          have hparser := integerLoop_agrees hloop
          rw [hcheck] at hparser
          exact Or.inr ⟨r.1, rfl, by
            simp only [Parser.integer, herror, Bool.false_eq_true, if_false, hparser]⟩

/-- Without a fault what remains is what `Parser.allRemaining` gives. -/
theorem allRemaining_agrees {c c' : ParserCursor} {v : ParserValue}
    (h : c.exec .allRemaining = .ok (v, c')) :
    ∃ bs, v = .buffers bs ∧ Parser.allRemaining c.parser = .ok (bs, c'.parser) := by
  rw [exec, dumpAll] at h
  split at h
  · next hzero =>
      cases h
      exact ⟨[], rfl, by simp only [Parser.allRemaining, hzero, if_true]⟩
  · next hsize =>
      split at h
      · cases h
      · next front rest hbuffer =>
          split at h
          · cases h
          · cases h
            exact ⟨_, rfl, by simp only [Parser.allRemaining, hsize, if_false, hbuffer]⟩

end ParserCursor
end Minnow
