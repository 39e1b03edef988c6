import Std.Data.HashSet
import Blockwork.Value

/-!
# Names

Names that do not collide.  A name that is in use gets the first number, from two on, that makes it
new (`Names.distinct`).
-/

namespace Blockwork.Names

/-- A name with the number `n + 1` after it, and without one for the first. -/
def candidate (name : String) (n : Nat) : String :=
  if n = 0 then name else name ++ String.ofList (Nat.toDigits 10 (n + 1))

/-- The first of candidates that is not in use.  Of one more candidate than there are names in use,
one is new. -/
def firstNew {α : Type} [BEq α] [Hashable α] (used : List α) (candidates : Nat → α) : α :=
  let taken := Std.HashSet.ofList used
  candidates (((List.range (used.length + 1)).find? fun n =>
    !taken.contains (candidates n)).getD 0)

theorem firstNew_eq {α : Type} [BEq α] [Hashable α] [EquivBEq α] [LawfulHashable α]
    (used : List α) (candidates : Nat → α) :
    firstNew used candidates =
      candidates (((List.range (used.length + 1)).find? fun n =>
        !used.contains (candidates n)).getD 0) := by
  simp [firstNew, Std.HashSet.contains_ofList]

/-- The first candidate for a name that is not in use; a number makes a text of any name. -/
def distinct (used : List Key) (name : Key) : Key :=
  firstNew used fun n => if n = 0 then name else .text (candidate name.display n)

/-- The names that no definition may have. -/
def reserved : List String := [
    "ArithmeticError", "AssertionError", "AttributeError", "BaseException", "BaseExceptionGroup",
    "BlockingIOError", "BrokenPipeError", "BufferError", "BytesWarning", "ChildProcessError",
    "ConnectionAbortedError", "ConnectionError", "ConnectionRefusedError", "ConnectionResetError",
    "DeprecationWarning", "EOFError", "Ellipsis", "EncodingWarning", "EnvironmentError",
    "Exception", "ExceptionGroup", "False", "FileExistsError", "FileNotFoundError",
    "FloatingPointError", "FutureWarning", "GeneratorExit", "IOError", "ImportError",
    "ImportWarning", "IndentationError", "IndexError", "InterruptedError", "IsADirectoryError",
    "KeyError", "KeyboardInterrupt", "LookupError", "MemoryError", "ModuleNotFoundError",
    "NameError", "None", "NotADirectoryError", "NotImplemented", "NotImplementedError", "OSError",
    "OverflowError", "PendingDeprecationWarning", "PermissionError", "ProcessLookupError",
    "RecursionError", "ReferenceError", "ResourceWarning", "RuntimeError", "RuntimeWarning",
    "StopAsyncIteration", "StopIteration", "SyntaxError", "SyntaxWarning", "SystemError",
    "SystemExit", "TabError", "TimeoutError", "True", "TypeError", "UnboundLocalError",
    "UnicodeDecodeError", "UnicodeEncodeError", "UnicodeError", "UnicodeTranslateError",
    "UnicodeWarning", "UserWarning", "ValueError", "Warning", "ZeroDivisionError", "abs", "aiter",
    "all", "and", "anext", "any", "as", "ascii", "assert", "async", "asyncio", "await", "bin",
    "bool", "break", "breakpoint", "bytearray", "bytes", "callable", "chr", "class",
    "classmethod", "compile", "complex", "continue", "copyright", "credits", "def", "del",
    "delattr", "dict", "dir", "divmod", "elif", "else", "enumerate", "eval", "except", "exec",
    "exit", "filter", "finally", "float", "for", "format", "from", "frozenset", "getattr",
    "global", "globals", "hasattr", "hash", "help", "hex", "highlight_block", "id", "if",
    "import", "in", "input", "int", "is", "isinstance", "issubclass", "iter", "lambda", "len",
    "license", "list", "locals", "map", "max", "memoryview", "min", "next", "nonlocal", "not",
    "object", "oct", "open", "or", "ord", "pass", "pow", "print", "property", "quit", "raise",
    "range", "repr", "restore_block", "return", "reversed", "round", "set", "setattr", "slice",
    "sorted", "staticmethod", "str", "sum", "super", "try", "tuple", "type", "vars", "while",
    "with", "yield", "zip"]

end Blockwork.Names
