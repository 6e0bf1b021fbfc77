import Mathlib.Data.List.DropRight
import Mathlib.Tactic.Common

/-!
# The output of a command, with its middle left out (`agent/workspace.rs`)

* `CappedOutput` — the first bytes of a stream, its last ones, and how many there were.
* `push` — takes a piece of the stream; the oldest byte of a full tail is dropped.
* `drainCapped` — what is left of a reader that is read to its end.
* `render` — both ends, with the number of bytes between them.

A deque is a list.  The number of bytes stays at the largest `usize` once it is there.
`String::from_utf8_lossy` is a function from elsewhere.

Principal results: `run_holds`, `output_exact`.
-/

set_option autoImplicit false

namespace Emelex

namespace Capped

abbrev Bytes := List UInt8

def USIZE_MAX : Nat := 18446744073709551615

structure CappedOutput where
  head : Bytes
  tail : Bytes
  total : Nat
  limit : Nat
deriving DecidableEq

def new (limit : Nat) : CappedOutput := ⟨[], [], 0, limit⟩

/-- A byte at the back of the deque. -/
def pushTail (tailLimit : Nat) (tail : Bytes) (byte : UInt8) : Bytes :=
  (if tail.length = tailLimit then tail.tail else tail) ++ [byte]

def push (output : CappedOutput) (bytes : Bytes) : CappedOutput :=
  let output := { output with total := min (output.total + bytes.length) USIZE_MAX }
  if output.limit = 0 then output
  else
    let headLimit := output.limit / 2
    let headRemaining := headLimit - output.head.length
    let headBytes := min headRemaining bytes.length
    { output with
      head := output.head ++ bytes.take headBytes
      tail := (bytes.drop headBytes).foldl (pushTail (output.limit - headLimit)) output.tail }

/-- The text that is shown. -/
def render (fromUtf8Lossy : Bytes → String) (output : CappedOutput) : String :=
  if output.total ≤ output.limit then fromUtf8Lossy (output.head ++ output.tail)
  else
    let omitted := output.total - (output.head.length + output.tail.length)
    fromUtf8Lossy output.head ++ s!"\n... {omitted} bytes omitted ...\n" ++
      fromUtf8Lossy output.tail

/-- The loop of `drain_capped`, over what its reads return; a read of nothing is the end. -/
def drain {ε : Type} (output : CappedOutput) : List (Except ε Bytes) → Except ε CappedOutput
  | [] | .ok [] :: _ => .ok output
  | .ok bytes :: reads => drain (push output bytes) reads
  | .error error :: _ => .error error

def drainCapped {ε : Type} (limit : Nat) (reads : List (Except ε Bytes)) :
    Except ε CappedOutput := drain (new limit) reads

/-! ## The tail -/

theorem pushTail_rtake {tailLimit : Nat} (hpos : 0 < tailLimit) (bytes : Bytes) (byte : UInt8) :
    pushTail tailLimit (bytes.rtake tailLimit) byte = (bytes ++ [byte]).rtake tailLimit := by
  unfold pushTail List.rtake
  rw [List.length_drop, List.length_append, List.length_singleton]
  by_cases hfull : tailLimit ≤ bytes.length
  · have hdrop : bytes.length + 1 - tailLimit ≤ bytes.length := by omega
    rw [if_pos (by omega), List.tail_drop, List.drop_append_of_le_length hdrop]
    congr 2
    omega
  · have hzero : bytes.length - tailLimit = 0 := by omega
    have hnext : bytes.length + 1 - tailLimit = 0 := by omega
    rw [if_neg (by omega), hzero, hnext, List.drop_zero, List.drop_zero]

theorem foldl_pushTail {tailLimit : Nat} (hpos : 0 < tailLimit) (bytes more : Bytes) :
    more.foldl (pushTail tailLimit) (bytes.rtake tailLimit) = (bytes ++ more).rtake tailLimit := by
  induction more generalizing bytes with
  | nil => rw [List.append_nil]; rfl
  | cons byte more ih =>
    rw [List.foldl_cons, pushTail_rtake hpos, ih, List.append_assoc]
    rfl

/-! ## Runs -/

/-- What is kept of a stream. -/
structure Holds (limit : Nat) (output : CappedOutput) (stream : Bytes) : Prop where
  limit_eq : output.limit = limit
  total : output.total = min stream.length USIZE_MAX
  head : output.head = stream.take (limit / 2)
  tail : output.tail = (stream.drop (limit / 2)).rtake (limit - limit / 2)

theorem holds_new (limit : Nat) : Holds limit (new limit) [] where
  limit_eq := rfl
  total := rfl
  head := List.take_nil.symm
  tail := by simp [new]

theorem Holds.push {limit : Nat} {output : CappedOutput} {stream : Bytes}
    (h : Holds limit output stream) (bytes : Bytes) :
    Holds limit (push output bytes) (stream ++ bytes) := by
  have htotal : min (output.total + bytes.length) USIZE_MAX =
      min (stream ++ bytes).length USIZE_MAX := by
    rw [h.total, List.length_append]
    omega
  unfold Capped.push
  dsimp only
  rw [h.limit_eq]
  by_cases hzero : limit = 0
  · subst hzero
    rw [if_pos rfl]
    refine ⟨rfl, htotal, ?_, ?_⟩
    · simpa using h.head
    · simpa using h.tail
  · rw [if_neg hzero]
    have htake : bytes.take (min (limit / 2 - output.head.length) bytes.length) =
        bytes.take (limit / 2 - stream.length) := by
      rw [h.head, List.length_take, List.take_eq_take_iff]
      omega
    have hdrop : bytes.drop (min (limit / 2 - output.head.length) bytes.length) =
        bytes.drop (limit / 2 - stream.length) := by
      rw [h.head, List.length_take, List.drop_eq_drop_iff]
      omega
    refine ⟨rfl, htotal, ?_, ?_⟩
    · rw [htake, h.head, List.take_append]
    · rw [hdrop, h.tail, foldl_pushTail (by omega), List.drop_append]

theorem Holds.run {limit : Nat} {output : CappedOutput} {stream : Bytes}
    (h : Holds limit output stream) (chunks : List Bytes) :
    Holds limit (chunks.foldl Capped.push output) (stream ++ chunks.flatten) := by
  induction chunks generalizing output stream with
  | nil => simpa using h
  | cons bytes chunks ih =>
    rw [List.foldl_cons, List.flatten_cons, ← List.append_assoc]
    exact ih (h.push bytes)

/-- Whatever the chunks are, what is kept depends on the stream alone. -/
theorem run_holds (limit : Nat) (chunks : List Bytes) :
    Holds limit (chunks.foldl push (new limit)) chunks.flatten := by
  simpa using (holds_new limit).run chunks

/-- The loop pushes what was read before the end. -/
theorem drainCapped_eq {ε : Type} (limit : Nat) {chunks : List Bytes}
    (h : ∀ bytes ∈ chunks, bytes ≠ []) :
    drainCapped limit (chunks.map (Except.ok (ε := ε))) = .ok (chunks.foldl push (new limit)) := by
  unfold drainCapped
  generalize new limit = output
  induction chunks generalizing output with
  | nil => rfl
  | cons bytes chunks ih =>
    obtain ⟨hbytes, hchunks⟩ := List.forall_mem_cons.1 h
    cases bytes with
    | nil => exact absurd rfl hbytes
    | cons byte bytes => exact ih hchunks _

/-! ## What is shown -/

section Shown

variable {limit : Nat} {output : CappedOutput} {stream : Bytes}

theorem Holds.length_le (h : Holds limit output stream) :
    output.head.length + output.tail.length ≤ limit := by
  rw [h.head, h.tail, List.length_take, List.rtake, List.length_drop]
  omega

/-- A stream within the limit is kept whole. -/
theorem Holds.whole (h : Holds limit output stream) (hle : stream.length ≤ limit) :
    output.head ++ output.tail = stream := by
  rw [h.head, h.tail]
  have hall : (stream.drop (limit / 2)).rtake (limit - limit / 2) = stream.drop (limit / 2) := by
    rw [List.rtake, List.length_drop]
    have hzero : stream.length - limit / 2 - (limit - limit / 2) = 0 := by omega
    rw [hzero, List.drop_zero]
  rw [hall, List.take_append_drop]

/-- Of a longer stream the middle is left out. -/
theorem Holds.middle (h : Holds limit output stream) :
    ∃ middle, stream = output.head ++ middle ++ output.tail := by
  refine ⟨(stream.drop (limit / 2)).rdrop (limit - limit / 2), ?_⟩
  rw [h.head, h.tail, List.append_assoc, List.rdrop, List.rtake, List.take_append_drop,
    List.take_append_drop]

theorem Holds.render_whole (h : Holds limit output stream) (hle : stream.length ≤ limit)
    (fromUtf8Lossy : Bytes → String) : render fromUtf8Lossy output = fromUtf8Lossy stream := by
  have htotal : output.total ≤ output.limit := by
    rw [h.total, h.limit_eq]
    omega
  rw [render, if_pos htotal, h.whole hle]

theorem Holds.render_middle (h : Holds limit output stream) (hlt : limit < stream.length)
    (hmax : stream.length ≤ USIZE_MAX) {middle : Bytes}
    (hmiddle : stream = output.head ++ middle ++ output.tail) (fromUtf8Lossy : Bytes → String) :
    render fromUtf8Lossy output = fromUtf8Lossy output.head ++
      s!"\n... {middle.length} bytes omitted ...\n" ++ fromUtf8Lossy output.tail := by
  have htotal : output.total = stream.length := by
    rw [h.total, Nat.min_eq_left hmax]
  have hlimit : ¬ output.total ≤ output.limit := by
    rw [htotal, h.limit_eq]
    omega
  have hlength : stream.length = output.head.length + middle.length + output.tail.length := by
    rw [hmiddle, List.length_append, List.length_append]
  have homitted : output.total - (output.head.length + output.tail.length) = middle.length := by
    omega
  rw [render, if_neg hlimit]
  dsimp only
  rw [homitted]

end Shown

/-- Both ends of the stream are kept and shown, with the number of bytes between them as long as a
`usize` can count the stream. -/
theorem capped_output_exact {ε : Type} (limit : Nat) (chunks : List Bytes)
    (fromUtf8Lossy : Bytes → String) :
    let stream := chunks.flatten
    let output := chunks.foldl push (new limit)
    ((∀ bytes ∈ chunks, bytes ≠ []) →
        drainCapped limit (chunks.map (Except.ok (ε := ε))) = .ok output) ∧
      output.head = stream.take (limit / 2) ∧
      output.tail = (stream.drop (limit / 2)).rtake (limit - limit / 2) ∧
      output.head.length + output.tail.length ≤ limit ∧
      (stream.length ≤ limit →
        output.head ++ output.tail = stream ∧
          render fromUtf8Lossy output = fromUtf8Lossy stream) ∧
      (limit < stream.length →
        ∃ middle, stream = output.head ++ middle ++ output.tail ∧
          (stream.length ≤ USIZE_MAX → render fromUtf8Lossy output = fromUtf8Lossy output.head ++
            s!"\n... {middle.length} bytes omitted ...\n" ++ fromUtf8Lossy output.tail)) := by
  intro stream output
  have hholds : Holds limit output stream := run_holds limit chunks
  refine ⟨drainCapped_eq limit, hholds.head, hholds.tail, hholds.length_le, fun hle => ?_,
    fun hlt => ?_⟩
  · exact ⟨hholds.whole hle, hholds.render_whole hle fromUtf8Lossy⟩
  · obtain ⟨middle, hmiddle⟩ := hholds.middle
    exact ⟨middle, hmiddle, fun hmax => hholds.render_middle hlt hmax hmiddle fromUtf8Lossy⟩

theorem length_flatten_replicate (n m : Nat) (byte : UInt8) :
    (List.replicate n (List.replicate m byte)).flatten.length = n * m := by
  rw [List.length_flatten, List.map_replicate, List.sum_replicate_nat, List.length_replicate]

/-- A stream of 2^65 bytes, read in whole buffers. -/
def endless : List Bytes := List.replicate 4503599627370496 (List.replicate 8192 0)

/-- Beyond the largest `usize` the bytes are not counted any more. -/
theorem endless_miscounted :
    let stream := endless.flatten
    let output := endless.foldl push (new 2)
    2 < stream.length ∧ ∀ middle, stream = output.head ++ middle ++ output.tail →
      render (fun _ => "") output ≠ s!"\n... {middle.length} bytes omitted ...\n" := by
  intro stream output
  have hholds : Holds 2 output stream := run_holds 2 endless
  have hlength : stream.length = 4503599627370496 * 8192 := length_flatten_replicate _ _ _
  refine ⟨by omega, fun middle hmiddle => ?_⟩
  have hends : output.head.length + output.tail.length = 2 := by
    rw [hholds.head, hholds.tail, List.length_take, List.rtake, List.length_drop, List.length_drop]
    omega
  have htotal : output.total = 18446744073709551615 := by
    rw [hholds.total, hlength]
    rfl
  have hsum := congrArg List.length hmiddle
  rw [List.length_append, List.length_append] at hsum
  have hcount : middle.length = 36893488147419103230 := by omega
  have hrender : render (fun _ => "") output =
      "" ++ s!"\n... {18446744073709551613} bytes omitted ...\n" ++ "" := by
    rw [render, htotal, hholds.limit_eq, if_neg (by decide), hends]
  rw [hrender, hcount]
  decide +kernel

end Capped

end Emelex
