import Protoclass.Generation.Run
import Protoclass.Wire.Descriptor

/-!
# Plugin mode

A plugin reads one request, generates, and writes one response.  What fails in
the options or in the generation is reported inside the response; the plugin
itself fails only when it cannot read, understand or answer the request.
-/

namespace Protoclass.Plugin

/-- What a plugin is asked for. -/
structure Request where
  /-- The names of the files to generate; none for all. -/
  requested : List Text := []
  parameter : Text := []
  /-- All files of the schema, dependencies included. -/
  files : List FileDescriptor := []

/-- What a plugin answers: an error, or files. -/
structure Response where
  error : Option Text := none
  features : Nat
  files : List OutputFile := []
  deriving DecidableEq, Repr

/-- The feature that every response announces: fields declared optional. -/
def supportedFeatures : Nat := 1

/-! ## Bytes -/

/-- A request from its records. -/
def Request.ofRecords (records : List Wire.Record) : Request where
  requested := Wire.Record.texts 1 records
  parameter := textOrEmpty 2 records
  files := (Wire.Record.messages 15 records).map FileDescriptor.ofRecords

/-- The request that bytes stand for. -/
def Request.decode (bytes : Text) : Option Request :=
  (Wire.readRecords .request bytes).map Request.ofRecords

/-- The bytes of a file in a response. -/
def encodeFile (file : OutputFile) : Text :=
  Wire.textField 1 file.path ++ Wire.textField 15 file.content

/-- The bytes of a response, its fields in order of their numbers. -/
def Response.encode (response : Response) : Text :=
  (match response.error with
    | some message => Wire.textField 1 message
    | none => [])
    ++ Wire.numberField 2 response.features
    ++ (response.files.map fun file => Wire.textField 15 (encodeFile file)).flatten

/-- A response from its records. -/
def Response.ofRecords (records : List Wire.Record) : Response where
  error := Wire.Record.text? 1 records
  features := (Wire.Record.number? 2 records).getD 0
  files := (Wire.Record.messages 15 records).map fun file =>
    { path := textOrEmpty 1 file, content := textOrEmpty 15 file }

/-- The response that bytes stand for. -/
def Response.decode (bytes : Text) : Option Response :=
  (Wire.readRecords .response bytes).map Response.ofRecords

/-! ## Answering -/

/-- The response that reports a failure. -/
def Response.failure (message : Text) : Response :=
  { error := some message, features := supportedFeatures }

/-- The response to a request. -/
def respond (languages : Languages) (request : Request) : Logged Empty Response := do
  Logged.debug "received plugin request"
    [("parameter", .text request.parameter), ("files", .texts request.requested)]
  match ← Logged.attempt (Options.ofParameter request.parameter) with
  | .error e => return .failure e.message
  | .ok options =>
    let run := RunRequest.run
      { files := request.files, requested := request.requested, options } languages
    match ← Logged.attempt run with
    | .error e =>
      Logged.error "generation failed" [("error", .text e.message)]
      return .failure e.message
    | .ok files => return { features := supportedFeatures, files }

/-- Why a plugin fails without an answer. -/
inductive Error where
  | read (cause : Text)
  | malformed
  | write (cause : Text)
  deriving DecidableEq, Repr

/-- The text of an error. -/
def Error.message : Error → Text
  | .read cause => "failed to read plugin request: " ++ cause
  | .malformed => "failed to parse plugin request"
  | .write cause => "failed to write plugin response: " ++ cause

/-- Answer the bytes that were read, or the cause why none were, over an output
that may refuse, with a cause: the bytes written. -/
def run (languages : Languages) (input : Except Text Text) (refusal : Option Text) :
    Logged Error Text := do
  let bytes ← Logged.lift (input.mapError .read)
  match Request.decode bytes with
  | none => Logged.fail .malformed
  | some request =>
    let response ← (respond languages request).mapError Empty.elim
    match refusal with
    | some cause => Logged.fail (.write cause)
    | none => return response.encode

end Protoclass.Plugin
