import Minnow.ByteStream

/-!
The Parser over a list of buffers and the Serializer that produces one. An integer of
any unsigned width is read and written most significant byte first. A string view of
the source is a list of bytes, and a shared buffer is copied with its holder.
-/

namespace Minnow

/-- The unsigned integer types that `integer` is instantiated at. -/
class UnsignedIntegral (α : Type) where
  sizeof : Nat
  toNat : α → Nat
  ofNat : Nat → α

instance : UnsignedIntegral UInt8 := ⟨1, UInt8.toNat, UInt8.ofNat⟩
instance : UnsignedIntegral UInt16 := ⟨2, UInt16.toNat, UInt16.ofNat⟩
instance : UnsignedIntegral UInt32 := ⟨4, UInt32.toNat, UInt32.ofNat⟩

open UnsignedIntegral

/-- The input list of a Parser with its error flag; `skip` bytes of the front buffer
have been read. -/
structure Parser where
  size : Nat := 0
  buffer : List Bytes := []
  skip : Nat := 0
  error : Bool := false
  deriving Repr, DecidableEq

abbrev ParserM := StateT Parser (Except String)

theorem ParserM.bind_of_ok {β γ : Type} {m : ParserM β} {f : β → ParserM γ} {p p' : Parser}
    {b : β} (h : m p = .ok (b, p')) : (m >>= f) p = f b p' := by
  change Except.bind (m p) (fun s => f s.1 s.2) = _
  rw [h]
  rfl

theorem ParserM.bind_ok {α β : Type} {x : ParserM α} {f : α → ParserM β} {p : Parser}
    {r : β × Parser} (h : (x >>= f) p = .ok r) :
    ∃ a p', x p = .ok (a, p') ∧ f a p' = .ok r := by
  change Except.bind (x p) (fun s => f s.1 s.2) = .ok r at h
  cases hx : x p with
  | error e => rw [hx] at h; cases h
  | ok s => rw [hx] at h; exact ⟨s.1, s.2, rfl, h⟩

namespace Parser

def append (p : Parser) (str : Bytes) : Parser :=
  { p with size := p.size + str.length, buffer := p.buffer ++ [str] }

def ofBuffers (input : List Bytes) : Parser := input.foldl append {}

def peek (p : Parser) : Except String Bytes :=
  match p.buffer with
  | [] => .error "peek on empty BufferList"
  | front :: _ => .ok (front.drop p.skip)

/-- The loop of `remove_prefix`. A turn that leaves bytes in the front buffer has
removed all that was asked for. -/
def removeLoop : Nat → Parser → List Bytes → Parser
  | _, p, [] => { p with buffer := [] }
  | 0, p, buffers => { p with buffer := buffers }
  | len, p, front :: rest =>
      let toPopNow := min len (front.length - p.skip)
      let p := { p with skip := p.skip + toPopNow, size := p.size - toPopNow }
      if p.skip = front.length then removeLoop (len - toPopNow) { p with skip := 0 } rest
      else { p with buffer := front :: rest }

def removePrefix (p : Parser) (len : Nat) : Parser := removeLoop len p p.buffer

def setError : ParserM Unit := modify fun p => { p with error := true }

def setErrorIf (cond : Bool) : ParserM Unit :=
  modify fun p => { p with error := p.error || cond }

def hasError : ParserM Bool := return (← get).error

def checkSize (p : Parser) (size : Nat) : Parser :=
  if p.size < size then { p with error := true } else p

/-- The bytes of an integer. The source takes `front()` of the view unguarded; where the
view is empty, which leaves it undefined, the byte is 0 here. -/
def integerLoop : Nat → Nat → Parser → Except String (Nat × Parser)
  | 0, out, p => .ok (out, p)
  | turns + 1, out, p =>
      match p.peek with
      | .error e => .error e
      | .ok view => integerLoop turns (out <<< 8 ||| (view.headD 0).toNat) (p.removePrefix 1)

variable {α : Type} [UnsignedIntegral α]

/-- An integer that is not read keeps its value `out`. -/
def integer (out : α) : ParserM α := fun p =>
  let p := p.checkSize (sizeof α)
  if p.error then .ok (out, p)
  else
    match integerLoop (sizeof α) 0 p with
    | .error e => .error e
    | .ok (n, p) => .ok (ofNat n, p)

/-- The buffers left, the front one without what has been read of it. -/
def allRemaining : ParserM (List Bytes) := fun p =>
  if p.size = 0 then .ok ([], p)
  else
    match p.buffer with
    | [] => .ok ([], p)
    | front :: rest =>
        .ok ((if p.skip ≠ 0 then front.drop p.skip else front) :: rest,
          { p with buffer := rest })

theorem allRemaining_error {p p' : Parser} {out : List Bytes}
    (h : allRemaining p = .ok (out, p')) : p'.error = p.error := by
  simp only [allRemaining] at h
  split at h
  · cases h; rfl
  · split at h <;> cases h <;> rfl

end Parser

/-- The object that a successful parse fills, if it is one. -/
def parse {α : Type} (obj : ParserM α) (buffers : List Bytes) : Except String (Option α) :=
  match obj (Parser.ofBuffers buffers) with
  | .error e => .error e
  | .ok (a, p) => .ok (if p.error then none else some a)

theorem parse_eq_some {α : Type} {obj : ParserM α} {buffers : List Bytes} {a : α} :
    parse obj buffers = .ok (some a) ↔
      ∃ p, obj (Parser.ofBuffers buffers) = .ok (a, p) ∧ p.error = false := by
  rw [parse]
  cases obj (Parser.ofBuffers buffers) with
  | error e => simp
  | ok r =>
      obtain ⟨b, p⟩ := r
      cases herror : p.error <;> simp [herror]

structure Serializer where
  output : List Bytes := []
  buffer : Bytes := []
  deriving Repr, DecidableEq

namespace Serializer

variable {α : Type} [UnsignedIntegral α]

def integer (s : Serializer) (val : α) : Serializer :=
  { s with buffer := s.buffer ++ (List.range (sizeof α)).map fun i =>
      UInt8.ofNat (UnsignedIntegral.toNat val >>> ((sizeof α - i - 1) * 8)) }

def flush (s : Serializer) : Serializer :=
  { output := s.output ++ [s.buffer], buffer := [] }

def appendBuffer (s : Serializer) (buf : Bytes) : Serializer :=
  { s.flush with output := s.flush.output ++ [buf] }

def appendBuffers (s : Serializer) (bufs : List Bytes) : Serializer :=
  bufs.foldl appendBuffer s

def takeOutput (s : Serializer) : List Bytes := s.flush.output

end Serializer
end Minnow
