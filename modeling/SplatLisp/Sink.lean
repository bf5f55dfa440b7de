/-!
# Sinks for text

Where errors and output go. A buffer captures what is written, a silent sink drops it, and a sink
for a standard stream keeps it until the surrounding program drains and prints it. Only what a
buffer captures is ever shown as output.

Sinks are shared by handles: whoever writes has a handle (`SinkRef`) to one of all the sinks
(`Sinks`), and two of them may have handles to the same one.
-/

namespace SplatLisp

/-- What a sink does with text. -/
inductive SinkKind where
  | stdout
  | stderr
  | buffer
  | silent
deriving DecidableEq, Inhabited

/-- A sink and the text that it holds. -/
structure Sink where
  kind : SinkKind
  held : String
deriving Inhabited

namespace Sink

def new (kind : SinkKind) : Sink := ⟨kind, ""⟩

def write (sink : Sink) (text : String) : Sink :=
  match sink.kind with
  | .silent => sink
  | _ => { sink with held := sink.held ++ text }

/-- What a buffer has captured; other sinks show nothing. -/
def output (sink : Sink) : String :=
  match sink.kind with
  | .buffer => sink.held
  | _ => ""

/-- Forgets what a buffer has captured. -/
def clear (sink : Sink) : Sink :=
  match sink.kind with
  | .buffer => { sink with held := "" }
  | _ => sink

/-- Takes out what is to be printed on a standard stream. -/
def drain (sink : Sink) : String × Sink :=
  match sink.kind with
  | .stdout | .stderr => (sink.held, { sink with held := "" })
  | _ => ("", sink)

@[simp] theorem write_kind (sink : Sink) (text : String) : (sink.write text).kind = sink.kind := by
  unfold write
  split <;> rfl

theorem held_write (sink : Sink) (text : String) :
    (sink.write text).held = if sink.kind = .silent then sink.held else sink.held ++ text := by
  obtain ⟨kind, held⟩ := sink
  cases kind <;> rfl

/-- A buffer captures all that is written, in order. -/
theorem output_write {sink : Sink} (h : sink.kind = .buffer) (text : String) :
    (sink.write text).output = sink.output ++ text := by
  simp [write, output, h]

@[simp] theorem write_empty (sink : Sink) : sink.write "" = sink := by
  obtain ⟨kind, held⟩ := sink
  cases kind <;> simp [write]

@[simp] theorem write_write (sink : Sink) (text more : String) :
    (sink.write text).write more = sink.write (text ++ more) := by
  obtain ⟨kind, held⟩ := sink
  cases kind <;> simp [write, String.append_assoc]

/-- What has become of a sink that was given a text: it holds the text behind what it held before,
unless it is silent, and a buffer shows the text behind what it showed before. -/
structure Took (old : Sink) (text : String) (new : Sink) : Prop where
  kind : new.kind = old.kind
  held : new.held = if old.kind = .silent then old.held else old.held ++ text
  output : old.kind = .buffer → new.output = old.output ++ text

theorem took_write (sink : Sink) (text : String) : sink.Took text (sink.write text) :=
  ⟨sink.write_kind text, sink.held_write text, fun h => output_write h text⟩

namespace Took

theorem none (sink : Sink) : sink.Took "" sink := by
  simpa using sink.took_write ""

theorem trans {a b c : Sink} {text more : String} (hab : a.Took text b) (hbc : b.Took more c) :
    a.Took (text ++ more) c where
  kind := hbc.kind.trans hab.kind
  held := by
    rw [hbc.held, hab.held, hab.kind]
    split
    · rfl
    · rw [String.append_assoc]
  output h := by
    rw [hbc.output (hab.kind.trans h), hab.output h, String.append_assoc]

end Took

end Sink

/-- A handle to a sink. -/
structure SinkRef where
  index : Nat
deriving DecidableEq, Inhabited

/-- The sinks that there are. A handle is a place among them; one that leads nowhere counts as one
to a silent sink. -/
structure Sinks where
  all : Array Sink
deriving Inhabited

/-- The handle to the standard error stream, among the standard sinks. -/
def SinkRef.stderr : SinkRef := ⟨0⟩

/-- The handle to the standard output stream, among the standard sinks. -/
def SinkRef.stdout : SinkRef := ⟨1⟩

namespace Sinks

def standard : Sinks := ⟨#[.new .stderr, .new .stdout]⟩

def get (sinks : Sinks) (ref : SinkRef) : Sink := sinks.all[ref.index]?.getD (.new .silent)

def update (sinks : Sinks) (ref : SinkRef) (change : Sink → Sink) : Sinks :=
  ⟨sinks.all.modify ref.index change⟩

def write (sinks : Sinks) (ref : SinkRef) (text : String) : Sinks := sinks.update ref (·.write text)

def writeLine (sinks : Sinks) (ref : SinkRef) (text : String) : Sinks :=
  (sinks.write ref text).write ref "\n"

theorem get_write (sinks : Sinks) (ref other : SinkRef) (text : String) :
    (sinks.write ref text).get other =
      if other = ref then (sinks.get ref).write text else sinks.get other := by
  have hindex : ref.index = other.index ↔ other = ref := by
    obtain ⟨i⟩ := ref
    obtain ⟨j⟩ := other
    simp [eq_comm]
  unfold write update get
  rw [Array.getElem?_modify]
  simp only [hindex]
  split
  · next h =>
    subst h
    cases sinks.all[other.index]? <;> rfl
  · rfl

@[simp] theorem get_write_self (sinks : Sinks) (ref : SinkRef) (text : String) :
    (sinks.write ref text).get ref = (sinks.get ref).write text := by
  rw [get_write, if_pos rfl]

/-- Writing to one sink leaves the others as they are. -/
theorem get_write_of_ne {ref other : SinkRef} (h : other ≠ ref) (sinks : Sinks) (text : String) :
    (sinks.write ref text).get other = sinks.get other := by
  rw [get_write, if_neg h]

@[simp] theorem get_writeLine_self (sinks : Sinks) (ref : SinkRef) (text : String) :
    (sinks.writeLine ref text).get ref = (sinks.get ref).write (text ++ "\n") := by
  rw [writeLine, get_write_self, get_write_self, Sink.write_write]

theorem get_writeLine_of_ne {ref other : SinkRef} (h : other ≠ ref) (sinks : Sinks)
    (text : String) : (sinks.writeLine ref text).get other = sinks.get other := by
  rw [writeLine, get_write_of_ne h, get_write_of_ne h]

/-- A text has been given to the sink of a handle, and nothing to the others. -/
structure Took (old : Sinks) (ref : SinkRef) (text : String) (new : Sinks) : Prop where
  own : (old.get ref).Took text (new.get ref)
  others : ∀ other ≠ ref, new.get other = old.get other

theorem took_writeLine (sinks : Sinks) (ref : SinkRef) (text : String) :
    sinks.Took ref (text ++ "\n") (sinks.writeLine ref text) where
  own := by
    rw [get_writeLine_self]
    exact Sink.took_write ..
  others _ h := get_writeLine_of_ne h sinks text

end Sinks

end SplatLisp
