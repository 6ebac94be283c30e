import Depot.Stream

/-!
# Describing a stream

The text that stands for a stream in diagnostics: the state of its barrier.
-/

namespace Depot

/-- A text in double quotes, with its control characters escaped. -/
def describeText (s : String) : String :=
  "\"" ++ String.join (s.toList.map fun c =>
    if c = '"' then "\\\"" else if c = '\\' then "\\\\" else if c = '\n' then "\\n"
    else if c = '\t' then "\\t" else if c = '\r' then "\\r" else if c = Char.ofNat 0 then "\\0"
    else if c.toNat < 32 ∨ c.toNat = 127 then
      "\\u\x7b" ++ String.ofList (Nat.toDigits 16 c.toNat) ++ "\x7d"
    else c.toString) ++ "\""

def Barrier.describe : Barrier → String
  | .pending => "Pending"
  | .completed n digest =>
    let digest := match digest with
      | none => "None"
      | some d => "Some([" ++ ", ".intercalate (d.map fun b => toString b.toNat) ++ "])"
    "Completed \x7b bytes: " ++ toString n ++ ", digest: " ++ digest ++ " \x7d"
  | .failed .abandoned => "Failed(Abandoned)"
  | .failed .timedOut => "Failed(TimedOut)"
  | .failed .aborted => "Failed(Aborted)"
  | .failed (.read codec message) =>
    "Failed(Read \x7b codec: " ++ (if codec then "true" else "false") ++ ", message: " ++
      describeText message ++ " \x7d)"

def Stream.describe (s : Stream) : String :=
  "TransformStream \x7b barrier: " ++ s.barrier.describe ++ " \x7d"

end Depot
