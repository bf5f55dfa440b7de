import SplatLisp.Diagnostics
import SplatLisp.Proofs.Offsets

/-!
# How messages are put together

An error's message is written piece by piece behind what its buffer holds (`Piece.writeAll?`). A
value is interpolated through a rendering of its own, so that of a rendering that failed the
failure's message shows and nothing that was written before it. A thing that writes itself into the
buffer and then reports failure spoils the message: the buffer is cut back to what it held, and the
fallback follows (`push?`). An error that is interpolated has been put together in the same way.

Here this is written out, with a buffer that is cut at a byte offset, and compared with `Message`,
which has no partial texts: `Diagnostics.report_exact`.

Every writing in it is the replay of a rendering, whatever the buffer holds (`Piece.write?_eq`), and
so is one behind the other (`Writing.replay_andThen`); what was there is the front of the buffer at
any time, and cutting it back loses nothing and keeps nothing else (`truncate?_append`).
-/

namespace SplatLisp

/-! ## Cutting a buffer back -/

/-- What a text keeps when it is cut to a number of bytes. It cannot be cut inside of a
character. -/
def truncate? (text : String) (size : Nat) : Option String :=
  if size ≤ text.utf8ByteSize then (slice? text.toList 0 size).map .ofList else some text

theorem truncate?_append (front back : String) :
    truncate? (front ++ back) front.utf8ByteSize = some front := by
  have hsize : String.utf8Len front.toList = front.utf8ByteSize := by simp
  have hle : front.utf8ByteSize ≤ (front ++ back).utf8ByteSize := by simp
  have hback : sliceFrom? (front ++ back).toList front.utf8ByteSize = some back.toList :=
    sliceFrom?_eq_some_iff.2 ⟨front.toList, String.toList_append, hsize⟩
  have hfront : sliceFrom? (front ++ back).toList 0 = some (front ++ back).toList :=
    sliceFrom?_eq_some_iff.2 ⟨[], rfl, rfl⟩
  rw [truncate?, if_pos hle, slice?_eq hfront hback String.toList_append, Option.map_some,
    String.ofList_toList]

/-! ## Renderings one behind the other -/

/-- What two things in a row write: behind a failure nothing is written. -/
def Rendering.andThen (r s : Rendering) : Rendering :=
  if r.failure.isNone then ⟨r.written ++ s.written, s.failure⟩ else r

namespace Writing

theorem replay_eq (r : Rendering) (out : String) :
    replay r out = r.failure.elim (.ok () (out ++ r.written)) (.error · (out ++ r.written)) := by
  obtain ⟨written, failure⟩ := r
  cases failure <;> rfl

theorem replay_andThen (r s : Rendering) :
    (replay r >>= fun _ => replay s) = replay (r.andThen s) := by
  obtain ⟨written, failure⟩ := r
  obtain ⟨written', failure'⟩ := s
  funext out
  change EStateM.bind (replay _) (fun _ => replay _) out = _
  rw [EStateM.bind, replay_eq]
  cases failure with
  | some failure => rfl
  | none =>
    change replay _ (out ++ written) = _
    rw [replay_eq, replay_eq, String.append_assoc]
    rfl

/-- Interpolates a thing by its whole text, or else by the message of the failure. -/
def dumped (w : Writing Unit) : Writing Unit :=
  match w.rendering.result with
  | .ok text => put text
  | .error failure => put failure.message

theorem rendering_replay (r : Rendering) : (replay r).rendering = r := by
  obtain ⟨written, failure⟩ := r
  rw [rendering, replay_eq]
  cases failure <;> simp

theorem dumped_replay (r : Rendering) : dumped (replay r) = replay (.ofText r.text) := by
  obtain ⟨written, failure⟩ := r
  rw [dumped, rendering_replay]
  cases failure <;> rfl

end Writing

open Writing (put replay dumped)

/-! ## Errors as they are kept -/

/-- An error with its whole message, and with its place if it is a read error. -/
structure Built where
  pos? : Option Pos
  message : String

namespace Built

/-- Writes a plain error by its message, and a read error behind a header. -/
def write : Built → Writing Unit
  | ⟨none, message⟩ => put message
  | ⟨some pos, message⟩ => do
    put "Read error in '"
    put pos.source
    put "'; row "
    put (Decimal.text pos.row)
    put ", col "
    put (Decimal.text pos.col)
    put ":\n"
    put message

/-- Appends a message to a buffer. If the message reports failure, what it has written is cut off,
and the fallback stands in its place. -/
def push? (out : String) (message : Writing Unit) : Option String :=
  match message out with
  | .ok () out => some out
  | .error _ written => (truncate? written out.utf8ByteSize).map (· ++ Message.fallback)

/-- Builds an error from what its message writes: a read error if there is a place. -/
def build? (pos? : Option Pos) (message : Writing Unit) : Option Built :=
  (push? (if pos?.isNone then "Error: " else "") message).map (⟨pos?, ·⟩)

end Built

/-- The error with a message: a read error if there is a place. -/
def Error.report (pos? : Option Pos) (message : Message) : Error :=
  pos?.elim (.ofMessage message) (.ofMessageAt · message)

/-! ## Pieces -/

/-- What a message is put together from. -/
inductive Piece where
  | text (text : String)
  /-- A value, of which rendering it makes a text or fails behind a part of one. -/
  | value (rendering : Rendering)
  /-- A thing that writes itself into the message, and may report failure then. -/
  | display (rendering : Rendering)
  /-- An error from pieces of its own: a read error if there is a place. -/
  | error (pos? : Option Pos) (pieces : List Piece)

namespace Piece

mutual

/-- How a piece is written into the buffer of a message. -/
def write? : Piece → Option (Writing Unit)
  | text s => some (put s)
  | value r => some (dumped (replay r))
  | display r => some (replay r)
  | error pos? pieces => do
    let message ← writeAll? pieces
    let built ← Built.build? pos? message
    some (dumped built.write)

def writeAll? : List Piece → Option (Writing Unit)
  | [] => some (pure ())
  | piece :: pieces => do
    let first ← write? piece
    let others ← writeAll? pieces
    some (first >>= fun _ => others)

end

/-- The error that is built from pieces. -/
def build? (pos? : Option Pos) (pieces : List Piece) : Option Built := do
  let message ← writeAll? pieces
  Built.build? pos? message

mutual

/-- The part that a piece is of a message without partial texts. -/
def part : Piece → MessagePart
  | text s => .text s
  | value r => .rendered r
  | display r => if r.failure.isNone then .text r.written else .unprintable
  | error pos? pieces => (Error.report pos? (parts pieces)).part

def parts : List Piece → Message
  | [] => []
  | piece :: pieces => piece.part :: parts pieces

end

/-- Whether a piece reports failure to the message. -/
def reportsFailure : Piece → Bool
  | display r => r.failure.isSome
  | _ => false

/-- The text that a piece adds if it does not report failure. -/
def shown : Piece → String
  | text s => s
  | value r => r.text
  | display r => r.written
  | error pos? pieces => (Error.report pos? (parts pieces)).text

/-- What the pieces of a message come to: their texts, or the fallback. -/
def message (pieces : List Piece) : String :=
  if pieces.any reportsFailure then Message.fallback else String.join (pieces.map shown)

/-- What a piece writes. -/
def rendering : Piece → Rendering
  | display r => r
  | piece => .ofText piece.shown

/-- What pieces write one behind the other. -/
def joined : List Piece → Rendering
  | [] => .ofText ""
  | piece :: pieces => piece.rendering.andThen (joined pieces)

end Piece

/-! ## What is built -/

theorem Built.push?_replay (out : String) (r : Rendering) :
    push? out (replay r) =
      some (out ++ if r.failure.isNone then r.written else Message.fallback) := by
  rw [push?, Writing.replay_eq]
  cases hfailure : r.failure with
  | none => rfl
  | some failure =>
    change (truncate? (out ++ r.written) out.utf8ByteSize).map _ = _
    rw [truncate?_append]
    rfl

namespace Error

/-- An error is written as it is shown. -/
theorem write_built (error : Error) :
    (Built.mk error.pos? error.message).write = replay (.ofText error.text) := by
  funext out
  cases error with
  | plain cause => rfl
  | read failure =>
    have happend : (Built.mk (some failure.pos) failure.cause.message).write out =
        .ok () (out ++ "Read error in '" ++ failure.pos.source ++ "'; row " ++
          Decimal.text failure.pos.row ++ ", col " ++ Decimal.text failure.pos.col ++ ":\n" ++
            failure.cause.message) := rfl
    have htext : (Error.read failure).text =
        "Read error in " ++ failure.pos.text ++ ":\n" ++ failure.cause.message := rfl
    have hquote : "Read error in '" = "Read error in " ++ "'" := rfl
    rw [pos?, message, happend, Writing.replay_eq, htext, hquote]
    simp only [Rendering.ofText, Option.elim_none, Pos.text, String.append_assoc]

theorem report_pos? (pos? : Option Pos) (message : Message) :
    (report pos? message).pos? = pos? := by
  cases pos? <;> rfl

theorem report_message (pos? : Option Pos) (message : Message) :
    (report pos? message).message = (if pos?.isNone then "Error: " else "") ++ message.text := by
  cases pos? with
  | none => rfl
  | some pos => exact String.empty_append.symm

theorem report_text (pos? : Option Pos) (message : Message) :
    (report pos? message).text =
      (pos?.elim "" fun pos => "Read error in " ++ pos.text ++ ":\n") ++
        (report pos? message).message := by
  cases pos? with
  | none => exact String.empty_append.symm
  | some pos => rfl

end Error

namespace Piece

theorem part_shown? (piece : Piece) :
    piece.part.shown? = if piece.reportsFailure then none else some piece.shown := by
  cases piece with
  | display r =>
    obtain ⟨written, failure⟩ := r
    cases failure <;> rfl
  | _ => rfl

/-- The message that is made of the parts is what the pieces come to. -/
theorem parts_text (pieces : List Piece) : Message.text (parts pieces) = message pieces := by
  have hmapM : (parts pieces).mapM MessagePart.shown? =
      if pieces.any reportsFailure then none else some (pieces.map shown) := by
    induction pieces with
    | nil => rfl
    | cons piece pieces ih =>
      rw [parts, List.mapM_cons, ih, part_shown?]
      cases hpiece : piece.reportsFailure <;> cases hpieces : pieces.any reportsFailure <;>
        simp [hpiece, hpieces]
  rw [Message.text, hmapM, message]
  split <;> rfl

theorem rendering_written (piece : Piece) : piece.rendering.written = piece.shown := by
  cases piece <;> rfl

theorem rendering_failure (piece : Piece) :
    piece.rendering.failure.isSome = piece.reportsFailure := by
  cases piece <;> rfl

theorem joined_failure (pieces : List Piece) :
    (joined pieces).failure.isSome = pieces.any reportsFailure := by
  induction pieces with
  | nil => rfl
  | cons piece pieces ih =>
    rw [joined, List.any_cons, ← rendering_failure, ← ih, Rendering.andThen]
    rcases piece.rendering with ⟨written, _ | failure⟩ <;> rfl

/-- Unless one of them reports failure, pieces write their texts one behind the other. -/
theorem joined_written {pieces : List Piece} (h : pieces.any reportsFailure = false) :
    (joined pieces).written = String.join (pieces.map shown) := by
  induction pieces with
  | nil => rfl
  | cons piece pieces ih =>
    rw [List.any_cons, Bool.or_eq_false_iff, ← rendering_failure, Option.isSome_eq_false_iff] at h
    obtain ⟨hpiece, hpieces⟩ := h
    rw [joined, Rendering.andThen, if_pos hpiece, List.map_cons, String.join_cons, ← ih hpieces,
      rendering_written]

theorem joined_message (pieces : List Piece) :
    (if (joined pieces).failure.isNone then (joined pieces).written else Message.fallback) =
      message pieces := by
  rw [message, ← joined_failure]
  cases hfailure : (joined pieces).failure with
  | some failure => rfl
  | none =>
    have hnone : pieces.any reportsFailure = false := by rw [← joined_failure, hfailure]; rfl
    exact joined_written hnone

/-- What is built when a message writes what its pieces do. -/
theorem build?_replay (pos? : Option Pos) (pieces : List Piece) :
    Built.build? pos? (replay (joined pieces)) =
      some ⟨(Error.report pos? (parts pieces)).pos?,
        (Error.report pos? (parts pieces)).message⟩ := by
  rw [Built.build?, Built.push?_replay, joined_message, Error.report_pos?, Error.report_message,
    parts_text, Option.map_some]

mutual

/-- **Every piece writes the same behind any buffer**, and a message in it is never cut elsewhere
than at the end of what was there. -/
theorem write?_eq : ∀ piece : Piece, piece.write? = some (replay piece.rendering)
  | text s => rfl
  | value r => congrArg some (Writing.dumped_replay r)
  | display r => rfl
  | error pos? pieces => by
    rw [write?, writeAll?_eq pieces]
    change (Built.build? pos? (replay (joined pieces))).bind _ = _
    rw [build?_replay, Option.bind_some, Error.write_built]
    exact congrArg some (Writing.dumped_replay _)

theorem writeAll?_eq : ∀ pieces : List Piece, writeAll? pieces = some (replay (joined pieces))
  | [] => by
    rw [writeAll?, joined]
    congr 1
    funext out
    exact (congrArg (EStateM.Result.ok ()) String.append_empty).symm
  | piece :: pieces => by
    rw [writeAll?, write?_eq piece, writeAll?_eq pieces]
    exact congrArg some (Writing.replay_andThen _ _)

end

theorem build?_eq (pos? : Option Pos) (pieces : List Piece) :
    build? pos? pieces =
      some ⟨(Error.report pos? (parts pieces)).pos?,
        (Error.report pos? (parts pieces)).message⟩ := by
  rw [build?, writeAll?_eq]
  exact build?_replay pos? pieces

/-! ## Errors in errors -/

/-- Whether an error stands among the pieces, or among those of an error there, at any depth; no
piece beside it or around it reports failure. -/
inductive Holds (inner : Error) : List Piece → Prop
  | here {pieces inside : List Piece} {pos? : Option Pos} (h : .error pos? inside ∈ pieces)
    (hshown : pieces.any reportsFailure = false) (hinner : inner = .report pos? (parts inside)) :
    Holds inner pieces
  | within {pieces inside : List Piece} {pos? : Option Pos} (h : .error pos? inside ∈ pieces)
    (hshown : pieces.any reportsFailure = false) (hinner : Holds inner inside) : Holds inner pieces

theorem exists_join_of_mem {s : String} {texts : List String} (h : s ∈ texts) :
    ∃ front back, String.join texts = front ++ s ++ back := by
  obtain ⟨before, after, rfl⟩ := List.append_of_mem h
  refine ⟨String.join before, String.join after, ?_⟩
  rw [String.join_append, String.join_cons, String.append_assoc]

/-- The text of an error among the pieces is a part of the text that is made of them. -/
theorem exists_text_of_mem {pieces inside : List Piece} {at? : Option Pos}
    (h : .error at? inside ∈ pieces) (hshown : pieces.any reportsFailure = false)
    (pos? : Option Pos) : ∃ front back, (Error.report pos? (parts pieces)).text =
      front ++ (Error.report at? (parts inside)).text ++ back := by
  have hmem : (Error.report at? (parts inside)).text ∈ pieces.map shown :=
    List.mem_map.2 ⟨_, h, rfl⟩
  obtain ⟨front, back, hjoin⟩ := exists_join_of_mem hmem
  rw [Error.report_text, Error.report_message, parts_text, message, hshown,
    if_neg Bool.false_ne_true, hjoin]
  exact ⟨_, back, by simp only [← String.append_assoc]; rfl⟩

/-- **An error is shown in all errors around it**, as it is shown by itself. -/
theorem Holds.text {inner : Error} {pieces : List Piece} (h : Holds inner pieces)
    (pos? : Option Pos) : ∃ front back, (Error.report pos? (parts pieces)).text =
      front ++ inner.text ++ back := by
  induction h generalizing pos? with
  | here h hshown hinner =>
    rw [hinner]
    exact exists_text_of_mem h hshown pos?
  | @within pieces inside at? h hshown _ ih =>
    obtain ⟨front, back, hinside⟩ := ih at?
    obtain ⟨before, after, htext⟩ := exists_text_of_mem h hshown pos?
    refine ⟨before ++ front, back ++ after, ?_⟩
    rw [htext, hinside]
    simp only [String.append_assoc]

end Piece

/-- **Messages are put together whole.** An error that is reported keeps its place, and its message
is made of the texts of its pieces: a value that fails to render shows as the failure's message
alone, and a piece that reports failure leaves the fallback and nothing else. The error is shown by
its message, behind the header of a read error; rendering it never fails. Any error among the pieces
is shown in full. A buffer that is cut back by bytes comes to the same. -/
theorem Diagnostics.report_exact {diagnostics : Diagnostics}
    (hpolicy : diagnostics.policy = .report) (pos? : Option Pos) (pieces : List Piece) :
    let error := Error.report pos? (Piece.parts pieces)
    let message := (if pos?.isNone then "Error: " else "") ++ Piece.message pieces
    let text := (pos?.elim "" fun pos => "Read error in " ++ pos.text ++ ":\n") ++ message
    (∀ sinks, diagnostics.raise error sinks = (.failed error, sinks)) ∧
      error.pos? = pos? ∧ error.message = message ∧ error.text = text ∧
      error.part.result = .ok text ∧
      Piece.build? pos? pieces = some ⟨pos?, message⟩ ∧
      (Built.mk pos? message).write.rendering.result = .ok text ∧
      (∀ out, dumped (Built.mk pos? message).write out = .ok () (out ++ text)) ∧
      ∀ inner, Piece.Holds inner pieces → ∃ front back, text = front ++ inner.text ++ back := by
  intro error message text
  have hpos : error.pos? = pos? := Error.report_pos? ..
  have hmessage : error.message = message := by
    rw [Error.report_message, Piece.parts_text]
  have htext : error.text = text := by
    rw [Error.report_text, hmessage]
  have hwrite : (Built.mk pos? message).write = replay (.ofText text) := by
    rw [← hpos, ← hmessage, Error.write_built, htext]
  refine ⟨?_, hpos, hmessage, htext, congrArg Except.ok htext, ?_, ?_, fun out => ?_,
    fun inner hinner => htext ▸ hinner.text pos?⟩
  · intro sinks
    rw [raise, hpolicy]
  · rw [Piece.build?_eq, hpos, hmessage]
  · rw [hwrite, Writing.rendering_replay]
    rfl
  · rw [hwrite, Writing.dumped_replay]
    rfl

/-- A value that fails behind a part of its text, beside a read error with an error that cannot be
shown in it. -/
theorem Diagnostics.report_exact_nested :
    let spoilt := Piece.error none [.text "lost", .display ⟨"lost", some .sinkRefused⟩]
    let pieces := [.value ⟨"part", some (.valueRefused "Probe" "negative")⟩, .text " in ",
      .error (some ⟨"f", 1, 2⟩) [.text "bad: ", spoilt]]
    Diagnostics.default.policy = .report ∧
      (Error.report none (Piece.parts pieces)).message =
        "Error: failed dumping Probe: negative in Read error in 'f'; row 1, col 2:\nbad: " ++
          "Error: <message failed to render>" := by
  intro spoilt pieces
  have hpolicy : Diagnostics.default.policy = .report := rfl
  obtain ⟨-, -, hmessage, -⟩ := Diagnostics.report_exact hpolicy none pieces
  refine ⟨hpolicy, hmessage.trans ?_⟩
  decide

end SplatLisp
