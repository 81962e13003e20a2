import Minnow.BigEndian
import Minnow.Parser
import Minnow.Views

/-!
The Parser read through its views: the front buffer without what has been read of it,
and the buffers behind it. `Sound` ties the size to the bytes in view; the operations
keep it and take their bytes from the front.
-/

namespace Minnow
open UnsignedIntegral
namespace Parser

/-- What is left of the buffers. -/
def views (p : Parser) : List Bytes :=
  match p.buffer with
  | [] => []
  | front :: rest => front.drop p.skip :: rest

/-- The bytes left. -/
def rest (p : Parser) : Bytes := p.views.flatten

/-- The size counts the bytes left, and a buffer that is used up is gone. -/
structure Sound (p : Parser) : Prop where
  size : p.size = p.rest.length
  skip : ∀ front rest, p.buffer = front :: rest → p.skip = 0 ∨ p.skip < front.length

theorem ofBuffers_append (p : Parser) (input : List Bytes) :
    input.foldl append p =
      { p with size := p.size + input.flatten.length, buffer := p.buffer ++ input } := by
  induction input generalizing p with
  | nil => simp
  | cons str input ih =>
      rw [List.foldl_cons, ih]
      simp [append, Nat.add_assoc]

@[simp] theorem ofBuffers_eq (input : List Bytes) :
    ofBuffers input = { size := input.flatten.length, buffer := input } := by
  rw [ofBuffers, ofBuffers_append]
  simp

@[simp] theorem views_ofBuffers (input : List Bytes) : (ofBuffers input).views = input := by
  rw [ofBuffers_eq, views]
  cases input <;> simp

@[simp] theorem rest_ofBuffers (input : List Bytes) : (ofBuffers input).rest = input.flatten := by
  rw [rest, views_ofBuffers]

theorem sound_ofBuffers (input : List Bytes) : Sound (ofBuffers input) := by
  refine ⟨?_, fun front rest _ => Or.inl ?_⟩
  · rw [rest_ofBuffers, ofBuffers_eq]
  · rw [ofBuffers_eq]

theorem peek_of_views {p : Parser} {view : Bytes} {more : List Bytes}
    (h : p.views = view :: more) : p.peek = .ok view := by
  rw [views] at h
  cases hbuffer : p.buffer with
  | nil => simp [hbuffer] at h
  | cons front rest =>
      simp only [hbuffer] at h
      simp only [peek, hbuffer]
      exact congrArg Except.ok (List.cons.inj h).1

/-- The views after a removal, and what it does not touch. -/
structure Removes (p : Parser) (len : Nat) (p' : Parser) : Prop where
  views : p'.views = Views.drop len p.views
  sound : p'.Sound
  error : p'.error = p.error

theorem Removes.rest {p p' : Parser} {len : Nat} (h : Removes p len p') :
    p'.rest = p.rest.drop len := by
  rw [Parser.rest, h.views, Views.flatten_drop]
  rfl

theorem removeLoop_removes (len : Nat) (p : Parser) (buffers : List Bytes)
    (hp : Sound { p with buffer := buffers }) :
    Removes { p with buffer := buffers } len (removeLoop len p buffers) := by
  induction buffers generalizing len p with
  | nil =>
      rw [removeLoop]
      exact ⟨by simp [Parser.views], hp, rfl⟩
  | cons front more ih =>
      cases len with
      | zero =>
          simp only [removeLoop]
          exact ⟨by simp, hp, rfl⟩
      | succ n =>
          have hsize := hp.size
          have hskip : p.skip = 0 ∨ p.skip < front.length := hp.skip front more rfl
          simp only [Parser.rest, Parser.views, List.flatten_cons, List.length_append,
            List.length_drop] at hsize
          simp only [removeLoop]
          cases Nat.lt_or_ge (n + 1) (front.length - p.skip) with
          | inl hlt =>
              rw [Nat.min_eq_left (by omega), if_neg (by omega)]
              refine ⟨?_, ⟨?_, ?_⟩, rfl⟩
              · simp only [Parser.views]
                rw [Views.drop_cons_of_lt more (by rw [List.length_drop]; omega), List.drop_drop]
              · simp only [Parser.rest, Parser.views, List.flatten_cons, List.length_append,
                  List.length_drop]
                omega
              · rintro f r ⟨rfl, rfl⟩
                exact Or.inr (by simp only; omega)
          | inr hle =>
              rw [Nat.min_eq_right (by omega), if_pos (by omega)]
              have hmore (size : Nat) :
                  Parser.views { size, buffer := more, error := p.error } = more := by
                cases more <;> simp [Parser.views]
              have hrest := ih (n + 1 - (front.length - p.skip))
                { p with skip := 0, size := p.size - (front.length - p.skip) }
                ⟨by rw [Parser.rest, hmore]; simp only; omega, fun _ _ _ => Or.inl rfl⟩
              refine ⟨?_, hrest.sound, hrest.error⟩
              rw [hrest.views, hmore]
              simp only [Parser.views]
              rw [Views.drop_cons_of_le more (by omega) (by rw [List.length_drop]; omega),
                List.length_drop]

theorem removePrefix_removes {p : Parser} (hp : p.Sound) (len : Nat) :
    Removes p len (p.removePrefix len) :=
  removeLoop_removes len p p.buffer hp

theorem Removes.refl {p : Parser} (hp : p.Sound) : Removes p 0 p :=
  ⟨by simp, hp, rfl⟩

theorem Removes.trans {p q r : Parser} {a b : Nat} (h : Removes p a q) (k : Removes q b r) :
    Removes p (a + b) r :=
  ⟨by rw [k.views, h.views, Views.drop_add], k.sound, k.error.trans h.error⟩

/-- With enough bytes left the loop of `integer` does not throw. -/
theorem integerLoop_removes (turns out : Nat) {p : Parser} (hp : p.Sound)
    (h : turns ≤ p.rest.length) :
    ∃ n p', integerLoop turns out p = .ok (n, p') ∧ Removes p turns p' ∧
      (Views.Filled turns p.views → n = BigEndian.decode out (p.rest.take turns)) := by
  induction turns generalizing out p with
  | zero => exact ⟨out, p, rfl, Removes.refl hp, fun _ => rfl⟩
  | succ turns ih =>
      have hremove := removePrefix_removes hp 1
      cases hviews : p.views with
      | nil => simp [rest, hviews] at h
      | cons view more =>
          obtain ⟨n, p', hok, hmore, hvalue⟩ := ih (out <<< 8 ||| (view.headD 0).toNat)
            hremove.sound (by rw [hremove.rest, List.length_drop]; omega)
          refine ⟨n, p', ?_, ?_, ?_⟩
          · simp only [integerLoop, peek_of_views hviews]
            exact hok
          · rw [Nat.add_comm]
            exact hremove.trans hmore
          · intro hfilled
            obtain ⟨b, v, more', hfront⟩ := hfilled.head
            obtain ⟨rfl, rfl⟩ := List.cons.inj hfront
            have hdrop : (p.removePrefix 1).views = Views.drop 1 ((b :: v) :: more) := by
              rw [hremove.views, hviews]
            rw [hvalue (by rw [hdrop]; exact hfilled.2), hremove.rest, rest, hviews]
            rfl

variable {α : Type} [UnsignedIntegral α]

/-- What an integer operation does to a sound parser. -/
theorem integer_cases {p : Parser} (hp : p.Sound) (out : α) :
    ((p.error = true ∨ p.rest.length < sizeof α) ∧
      integer out p = .ok (out, { p with error := true })) ∨
    (p.error = false ∧ sizeof α ≤ p.rest.length ∧ ∃ n p', integer out p = .ok (ofNat n, p') ∧
      Removes p (sizeof α) p' ∧
      (Views.Filled (sizeof α) p.views → n = BigEndian.decode 0 (p.rest.take (sizeof α)))) := by
  cases Nat.lt_or_ge p.rest.length (sizeof α) with
  | inl hshort =>
      left
      refine ⟨Or.inr hshort, ?_⟩
      rw [← hp.size] at hshort
      simp only [integer, checkSize, hshort, if_true]
  | inr hlong =>
      have hcheck : p.checkSize (sizeof α) = p := by
        rw [checkSize, if_neg (by rw [hp.size]; omega)]
      cases herror : p.error with
      | true =>
          left
          refine ⟨Or.inl rfl, ?_⟩
          simp only [integer, hcheck, herror, if_true]
          rw [← herror]
      | false =>
          right
          obtain ⟨n, p', hok, hremoves, hvalue⟩ := integerLoop_removes (sizeof α) 0 hp hlong
          refine ⟨rfl, hlong, n, p', ?_, hremoves, hvalue⟩
          simp only [integer, hcheck, herror, Bool.false_eq_true, if_false, hok]

/-- The parse does not throw on a sound parser and leaves it sound. -/
def Runs {β : Type} (m : ParserM β) : Prop :=
  ∀ p : Parser, p.Sound → ∃ b p', m p = .ok (b, p') ∧ p'.Sound

theorem Runs.bind {β γ : Type} {m : ParserM β} {f : β → ParserM γ} (hm : Runs m)
    (hf : ∀ b, Runs (f b)) : Runs (m >>= f) := by
  intro p hp
  obtain ⟨b, q, hq, hqs⟩ := hm p hp
  obtain ⟨c, r, hr, hrs⟩ := hf b q hqs
  refine ⟨c, r, ?_, hrs⟩
  change Except.bind (m p) (fun s => f s.1 s.2) = _
  rw [hq]
  exact hr

theorem runs_pure {β : Type} (b : β) : Runs (pure b) := fun p hp => ⟨b, p, rfl, hp⟩

/-- What a mapped parse has left and made. -/
theorem map_eq_ok {β γ : Type} {g : β → γ} {m : ParserM β} {p p' : Parser} {c : γ} :
    (g <$> m) p = .ok (c, p') ↔ ∃ b, m p = .ok (b, p') ∧ g b = c := by
  change Except.map (fun s : β × Parser => (g s.1, s.2)) (m p) = _ ↔ _
  cases m p with
  | error e => simp [Except.map]
  | ok s =>
      simp only [Except.map, Except.ok.injEq, Prod.mk.injEq]
      constructor
      · rintro ⟨hg, hp⟩
        exact ⟨s.1, by rw [← hp], hg⟩
      · rintro ⟨b, rfl, hg⟩
        exact ⟨hg, rfl⟩

/-- Entry by entry through a vector. -/
theorem mapM_vector_eq_ok {β γ : Type} {n : Nat} {f : β → ParserM γ} {v : Vector β n}
    {p p' : Parser} {l : List γ} :
    v.toList.mapM f p = .ok (l, p') ↔ ∃ w, v.mapM f p = .ok (w, p') ∧ w.toList = l := by
  have hmap : Vector.toArray <$> v.mapM f = List.toArray <$> v.toList.mapM f := by
    rw [Vector.toArray_mapM, ← List.mapM_toArray]
    rfl
  have hlist : v.toList.mapM f p = .ok (l, p') ↔
      (List.toArray <$> v.toList.mapM f) p = .ok (l.toArray, p') := by
    rw [map_eq_ok]
    refine ⟨fun h => ⟨l, h, rfl⟩, ?_⟩
    rintro ⟨l', h, hl⟩
    obtain rfl : l' = l := congrArg Array.toList hl
    exact h
  rw [hlist, ← hmap, map_eq_ok]
  exact exists_congr fun w => and_congr_right fun _ => Array.toList_inj.symm

theorem runs_mapM {β γ : Type} {f : β → ParserM γ} (hf : ∀ b, Runs (f b)) (l : List β) :
    Runs (l.mapM f) := by
  induction l with
  | nil => exact runs_pure []
  | cons b l ih =>
      rw [List.mapM_cons]
      exact (hf b).bind fun c => ih.bind fun l' => runs_pure (c :: l')

theorem runs_mapM_vector {β γ : Type} {n : Nat} {f : β → ParserM γ} (hf : ∀ b, Runs (f b))
    (v : Vector β n) : Runs (v.mapM f) := by
  intro p hp
  obtain ⟨l, p', hl, hp'⟩ := runs_mapM hf v.toList p hp
  obtain ⟨w, hw, -⟩ := mapM_vector_eq_ok.mp hl
  exact ⟨w, p', hw, hp'⟩

/-- A computation that succeeds and only takes bytes from the front. -/
def Consumes {β : Type} (m : ParserM β) : Prop :=
  ∀ p, p.Sound → ∃ b p', m p = .ok (b, p') ∧ p'.Sound ∧ p'.rest <:+ p.rest

theorem Consumes.bind {β γ : Type} {m : ParserM β} {f : β → ParserM γ} (hm : Consumes m)
    (hf : ∀ b, Consumes (f b)) : Consumes (m >>= f) := by
  intro p hp
  obtain ⟨b, q, hq, hqs, hrest⟩ := hm p hp
  obtain ⟨c, r, hr, hrs, hmore⟩ := hf b q hqs
  exact ⟨c, r, by rw [ParserM.bind_of_ok hq, hr], hrs, hmore.trans hrest⟩

theorem consumes_pure {β : Type} (b : β) : Consumes (pure b) :=
  fun p hp => ⟨b, p, rfl, hp, List.suffix_refl _⟩

theorem consumes_integer (out : α) : Consumes (integer out) := by
  intro p hp
  cases integer_cases hp out with
  | inl hshort => exact ⟨out, _, hshort.2, ⟨hp.size, hp.skip⟩, List.suffix_refl _⟩
  | inr hlong =>
      obtain ⟨-, -, n, p', hok, hremoves, -⟩ := hlong
      exact ⟨ofNat n, p', hok, hremoves.sound, by rw [hremoves.rest]; exact List.drop_suffix _ _⟩

theorem Consumes.runs {β : Type} {m : ParserM β} (hm : Consumes m) : Runs m := by
  intro p hp
  obtain ⟨b, p', hok, hp', -⟩ := hm p hp
  exact ⟨b, p', hok, hp'⟩

theorem runs_integer (out : α) : Runs (integer out) := (consumes_integer out).runs

theorem runs_setError : Runs setError := fun _ hp => ⟨(), _, rfl, hp.size, hp.skip⟩

theorem allRemaining_ok (p : Parser) : ∃ out p', allRemaining p = .ok (out, p') := by
  simp only [allRemaining]
  split
  · exact ⟨_, _, rfl⟩
  · split <;> exact ⟨_, _, rfl⟩

/-- Of a sound parser, all that remains are the bytes left. -/
theorem allRemaining_rest {p p' : Parser} {out : List Bytes} (hp : p.Sound)
    (h : allRemaining p = .ok (out, p')) : out.flatten = p.rest := by
  have hsize := hp.size
  simp only [allRemaining] at h
  split at h
  · next hzero =>
      cases h
      rw [hzero] at hsize
      exact (List.eq_nil_of_length_eq_zero hsize.symm).symm
  · split at h
    · next hbuffer =>
        cases h
        simp [rest, views, hbuffer]
    · next front more hbuffer =>
        cases h
        by_cases hskip : p.skip = 0 <;> simp [rest, views, hbuffer, hskip]

end Parser
end Minnow
