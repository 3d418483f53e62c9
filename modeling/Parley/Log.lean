/-!
# Log entries and logging computations

Reading a script never fails on malformed text: what cannot be used is reported and left
out.  A computation that reports carries its value together with its log, in the order in
which the entries were made.
-/

namespace Parley

/-- How serious a log entry is. -/
inductive Level where
  | debug
  | info
  | warning
  | error
  deriving DecidableEq, Repr

/-- The name under which a level is shown. -/
def Level.name : Level → String
  | debug => "DEBUG"
  | info => "INFO"
  | warning => "WARNING"
  | error => "ERROR"

/-- One report. -/
structure LogEntry where
  level : Level
  text : String
  deriving DecidableEq, Repr

/-- A value together with the reports made while it was computed. -/
structure Logged (α : Type) where
  value : α
  log : List LogEntry
  deriving Repr

namespace Logged

variable {α β γ : Type}

def quiet (a : α) : Logged α := ⟨a, []⟩

/-- First one computation, then the next on its value; the reports in that order. -/
def andThen (x : Logged α) (f : α → Logged β) : Logged β :=
  ⟨(f x.value).value, x.log ++ (f x.value).log⟩

instance : Monad Logged where
  pure := quiet
  bind := andThen

def report (level : Level) (text : String) : Logged Unit := ⟨(), [⟨level, text⟩]⟩

@[simp] theorem value_pure (a : α) : (pure a : Logged α).value = a := rfl

@[simp] theorem log_pure (a : α) : (pure a : Logged α).log = [] := rfl

@[simp] theorem value_bind (x : Logged α) (f : α → Logged β) :
    (x >>= f).value = (f x.value).value := rfl

@[simp] theorem log_bind (x : Logged α) (f : α → Logged β) :
    (x >>= f).log = x.log ++ (f x.value).log := rfl

@[simp] theorem value_map (f : α → β) (x : Logged α) : (f <$> x).value = f x.value := rfl

@[simp] theorem log_map (f : α → β) (x : Logged α) : (f <$> x).log = x.log := by
  show x.log ++ [] = x.log
  simp

@[simp] theorem log_report (level : Level) (text : String) :
    (report level text).log = [⟨level, text⟩] := rfl

theorem ext {x y : Logged α} (hvalue : x.value = y.value) (hlog : x.log = y.log) : x = y := by
  cases x; cases y; simp_all

instance : LawfulMonad Logged where
  map_const := rfl
  id_map x := ext rfl (by simp)
  seqLeft_eq x y := ext rfl (by simp [SeqLeft.seqLeft, Seq.seq, andThen, quiet])
  seqRight_eq x y := ext rfl (by simp [SeqRight.seqRight, Seq.seq, andThen, quiet])
  pure_seq f x := ext rfl (by simp [Seq.seq, andThen, quiet])
  bind_pure_comp f x := rfl
  bind_map f x := rfl
  pure_bind a f := ext rfl (by simp)
  bind_assoc x f g := ext rfl (by simp)

end Logged

end Parley
