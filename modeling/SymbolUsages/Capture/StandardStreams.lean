import SymbolUsages.Capture.DescriptorCapture

/-!
# Capturing the standard streams

Standard output is captured, and standard error if there is a handler for it. If standard
error cannot be redirected, standard output is put back.
-/

namespace SymbolUsages

/-- The captures of standard output and, where it is captured, of standard error. -/
structure StandardCapture where
  output : CaptureId
  error? : Option CaptureId := none
deriving DecidableEq, Repr

namespace StandardCapture

def outputDescriptor : Descriptor := 1
def errorDescriptor : Descriptor := 2

/-- Start capturing standard error; if that is refused, stop capturing standard output. -/
def startError (output error : CaptureId) : CaptureM Unit := do
  match ← CaptureM.attempt (CaptureM.start error) with
  | .ok _ => return
  | .error (.system cause) => throw (.system cause)
  | .error e =>
    CaptureM.stop output
    throw e

/-- Start capturing, with the tags of the handlers. -/
def start (outputTag : String) (errorTag? : Option String) : CaptureM StandardCapture := do
  let output ← CaptureM.create outputDescriptor "stdout" outputTag
  CaptureM.start output
  match errorTag? with
  | none => return { output }
  | some tag =>
    let error ← CaptureM.create errorDescriptor "stderr" tag
    startError output error
    return { output, error? := some error }

/-- Stop capturing, standard error first. -/
def stop (c : StandardCapture) : CaptureM Unit := do
  c.error?.forM fun id => CaptureM.stop id
  CaptureM.stop c.output

end StandardCapture

end SymbolUsages
