import Protoclass.Plugin
import Protoclass.Proofs.Result
import Protoclass.Proofs.Wire.Descriptor

/-!
# Plugin runs over bytes

A plugin that reads a way to write a request writes one text, and that text
stands for the response to the request.  Bytes that are no way to write a
request, or one in which messages lie too deep, get no response.

Whether the options or the generation fail shows in the response only: in its
error, which stands there in place of files.
-/

namespace Protoclass.Plugin

open Wire

/-! ## Requests -/

/-- The records of a request. -/
def Request.toRecords (request : Request) : List Record :=
  request.requested.map (.text 1) ++ [.text 2 request.parameter]
    ++ request.files.map fun file => .message 15 file.toRecords

/-- The bytes of a request, its fields in order of their numbers. -/
def Request.encode (request : Request) : Text := Record.writeAll request.toRecords

/-- The integers of a request have 32 bits. -/
def Request.IsNarrow (request : Request) : Prop := ∀ file ∈ request.files, file.IsNarrow

/-- Bytes are a way to write a request, in which so many messages lie in one another,
the request counted. -/
def Encodes (bytes : Text) (request : Request) (levels : Nat) : Prop :=
  ∃ records, Written .request records bytes ∧ Request.ofRecords records = request
    ∧ levels = Record.nestingAll records + 1

/-- How many messages lie in one another in a request, itself counted. -/
def Request.levels (request : Request) : Nat := Record.nestingAll request.toRecords + 1

theorem Request.ofRecords_toRecords {request : Request} (narrow : request.IsNarrow) :
    Request.ofRecords request.toRecords = request := by
  have files : (request.files.map FileDescriptor.toRecords).map FileDescriptor.ofRecords
      = request.files :=
    map_ofRecords_map_toRecords fun file member =>
      FileDescriptor.ofRecords_toRecords (narrow file member)
  simp only [Request.ofRecords, Request.toRecords, textOrEmpty, Record.text?, Record.texts_append,
    Record.texts_cons_text, Record.texts_nil, Record.texts_map_text, Record.texts_map_message,
    Record.messages_append, Record.messages_cons_text, Record.messages_nil,
    Record.messages_map_text, Record.messages_map_message]
  simp [files]

theorem Request.fits_toRecords (request : Request) : Fits .request request.toRecords := by
  apply Fits.append _ (fits_map_message (by decide) rfl fun file _ => ⟨file.fits_toRecords, rfl⟩)
  apply Fits.append (fits_map_text request.requested (by decide) rfl)
  exact .text (by decide) rfl .nil

theorem Request.encodes_encode {request : Request} (narrow : request.IsNarrow)
    (short : request.encode.length < 2 ^ 64) : Encodes request.encode request request.levels :=
  ⟨request.toRecords, request.fits_toRecords.written short, ofRecords_toRecords narrow, rfl⟩

/-- What is read is exactly what is encoded with few enough messages in one
another. -/
theorem Request.decode_eq_some_iff {bytes : Text} {request : Request} :
    Request.decode bytes = some request ↔
      ∃ levels, Encodes bytes request levels ∧ levels ≤ maxNesting := by
  simp only [Request.decode, Option.map_eq_some_iff, readRecords_eq_some_iff]
  constructor
  · rintro ⟨records, ⟨written, nested⟩, same⟩
    exact ⟨_, ⟨records, written, same, rfl⟩, nested⟩
  · rintro ⟨levels, ⟨records, written, same, rfl⟩, nested⟩
    exact ⟨records, ⟨written, nested⟩, same⟩

theorem Encodes.levels_unique {bytes : Text} {request other : Request} {levels levels' : Nat}
    (encoded : Encodes bytes request levels) (again : Encodes bytes other levels') :
    levels = levels' := by
  rcases encoded with ⟨records, written, -, rfl⟩
  rcases again with ⟨others, writtenAgain, -, rfl⟩
  rw [written.unique writtenAgain]

/-! ## Responses -/

/-- The records of a file in a response. -/
def fileRecords (file : OutputFile) : List Record :=
  [.text 1 file.path, .text 15 file.content]

/-- The records of a response. -/
def Response.toRecords (response : Response) : List Record :=
  response.error.toList.map (.text 1) ++ [.varint 2 response.features]
    ++ response.files.map fun file => .message 15 (fileRecords file)

theorem writeAll_map_fileRecords (files : List OutputFile) :
    Record.writeAll (files.map fun file => .message 15 (fileRecords file))
      = (files.map fun file => textField 15 (encodeFile file)).flatten := by
  induction files with
  | nil => rw [List.map_nil, Record.writeAll, List.map_nil, List.flatten_nil]
  | cons file files ih =>
    have bytes : Record.writeAll (fileRecords file) = encodeFile file := by
      simp [fileRecords, Record.writeAll, Record.write, encodeFile]
    rw [List.map_cons, Record.writeAll, Record.write, bytes, ih, List.map_cons, List.flatten_cons]

theorem Response.writeAll_toRecords (response : Response) :
    Record.writeAll response.toRecords = response.encode := by
  rw [Response.toRecords, Record.writeAll_append, Record.writeAll_append,
    writeAll_map_fileRecords, Response.encode]
  cases response.error <;> simp [Record.writeAll, Record.write]

theorem Response.fits_toRecords {response : Response} (bounded : response.features < 2 ^ 64) :
    Fits .response response.toRecords := by
  have file : ∀ file ∈ response.files, Fits .outputFile (fileRecords file)
      ∧ MessageType.outputFile.isComplete (fileRecords file) := fun file _ =>
    ⟨.text (by decide) rfl (.text (by decide) rfl .nil), rfl⟩
  apply Fits.append _ (fits_map_message (by decide) rfl file)
  apply Fits.append (fits_map_text response.error.toList (by decide) rfl)
  exact .varint (by decide) bounded .nil

theorem Response.ofRecords_toRecords (response : Response) :
    Response.ofRecords response.toRecords = response := by
  rcases response with ⟨error, features, files⟩
  have back : (files.map fileRecords).map (fun file =>
      ({ path := textOrEmpty 1 file, content := textOrEmpty 15 file } : OutputFile)) = files := by
    apply map_ofRecords_map_toRecords
    intro file _
    simp [fileRecords, textOrEmpty, Record.text?]
  cases error <;>
    simp [Response.ofRecords, Response.toRecords, Record.text?, Record.number?, back]

theorem Response.nestingAll_toRecords_le (response : Response) :
    Record.nestingAll response.toRecords ≤ 1 := by
  rw [Record.nestingAll_le_iff]
  intro record member
  simp only [Response.toRecords, List.mem_append, List.mem_map, List.mem_singleton] at member
  rcases member with (⟨message, -, rfl⟩ | rfl) | ⟨file, -, rfl⟩
  · exact Nat.zero_le 1
  · exact Nat.zero_le 1
  · exact Nat.le_refl 1

/-- A response is read back as it is, its empty texts included. -/
theorem Response.decode_encode {response : Response} (bounded : response.features < 2 ^ 64)
    (short : response.encode.length < 2 ^ 64) :
    Response.decode response.encode = some response := by
  have nested := Nat.lt_of_le_of_lt response.nestingAll_toRecords_le
    (show 1 < maxNesting by decide)
  rw [← response.writeAll_toRecords] at short ⊢
  rw [Response.decode, (Response.fits_toRecords bounded).readRecords_writeAll short nested,
    Option.map_some, response.ofRecords_toRecords]

/-! ## Answers -/

/-- What a request comes to: the files that are generated with the options that the
parameter stands for, or the text of the first error. -/
def outcome (languages : Languages) (request : Request) : Except Text (List OutputFile) :=
  match (Options.ofParameter request.parameter).result with
  | .error e => .error e.message
  | .ok options =>
    ((RunRequest.run { files := request.files, requested := request.requested, options }
      languages).result).mapError RunError.message

/-- A response that tells what a request comes to. -/
def Response.Tells (response : Response) : Except Text (List OutputFile) → Prop
  | .ok files => response.error = none ∧ response.files = files
  | .error message => response.error = some message ∧ response.files = []

/-- The response to a request. -/
def answer (languages : Languages) (request : Request) : Response :=
  (respond languages request).value

theorem result_respond (languages : Languages) (request : Request) :
    (respond languages request).result = .ok (answer languages request) := by
  unfold answer Logged.value
  split
  next response same => exact same

theorem answer_tells (languages : Languages) (request : Request) :
    (answer languages request).Tells (outcome languages request)
      ∧ (answer languages request).features = supportedFeatures := by
  have result := result_respond languages request
  generalize answer languages request = response at result ⊢
  unfold respond at result
  unfold outcome
  simp only [Logged.result_bind, Logged.result_debug, Logged.result_attempt, Result.ok_bind]
    at result
  cases parsed : (Options.ofParameter request.parameter).result with
  | error e =>
    rw [parsed] at result
    cases result
    exact ⟨⟨rfl, rfl⟩, rfl⟩
  | ok options =>
    rw [parsed] at result
    simp only [Logged.result_bind, Logged.result_attempt, Result.ok_bind] at result ⊢
    cases generated : (RunRequest.run
      { files := request.files, requested := request.requested, options } languages).result with
    | error e =>
      rw [generated] at result
      cases result
      exact ⟨⟨rfl, rfl⟩, rfl⟩
    | ok files =>
      rw [generated] at result
      cases result
      exact ⟨⟨rfl, rfl⟩, rfl⟩

/-! ## Runs -/

theorem result_run_of_decoded {languages : Languages} {bytes : Text} {request : Request}
    (decoded : Request.decode bytes = some request) :
    (run languages (.ok bytes) none).result = .ok (answer languages request).encode := by
  simp [run, decoded, result_respond, Except.mapError]

theorem result_run_of_undecoded {languages : Languages} {bytes : Text}
    (undecoded : Request.decode bytes = none) (refusal : Option Text) :
    (run languages (.ok bytes) refusal).result = .error .malformed := by
  simp [run, undecoded, Except.mapError]

theorem decode_eq_none_of_too_deep {bytes : Text} {request : Request} {levels : Nat}
    (encoded : Encodes bytes request levels) (deep : maxNesting < levels) :
    Request.decode bytes = none := by
  rcases decoded : Request.decode bytes with - | other
  · rfl
  · rcases Request.decode_eq_some_iff.mp decoded with ⟨levels', again, bounded⟩
    have same := encoded.levels_unique again
    omega

/-- A plugin that reads a way to write a request, with at most `maxNesting` messages
in one another, writes one text, and reading that text gives the response, which
tells the files that are generated or the first error.  Every request has such a way to
write it, unless messages lie too deep in it.  For other bytes, and when nothing can be
read, the plugin fails and writes nothing. -/
theorem run_writes_answer :
    (∀ request : Request, request.IsNarrow → request.encode.length < 2 ^ 64 →
      Encodes request.encode request request.levels)
    ∧ (∀ bytes request levels, Encodes bytes request levels → levels ≤ maxNesting →
      (answer .standard request).encode.length < 2 ^ 64 →
        ∃ written, (run .standard (.ok bytes) none).result = .ok written
          ∧ Response.decode written = some (answer .standard request))
    ∧ (∀ request, (answer .standard request).Tells (outcome .standard request)
      ∧ (answer .standard request).features = supportedFeatures)
    ∧ (∀ bytes refusal, (∀ request levels, Encodes bytes request levels → maxNesting < levels) →
      (run .standard (.ok bytes) refusal).result = .error .malformed)
    ∧ (∀ cause refusal, (run .standard (.error cause) refusal).result = .error (.read cause)) := by
  refine ⟨fun _ => Request.encodes_encode, ?_, answer_tells .standard, ?_, fun _ _ => rfl⟩
  · intro bytes request levels encoded bounded short
    have decoded := Request.decode_eq_some_iff.mpr ⟨levels, encoded, bounded⟩
    refine ⟨_, result_run_of_decoded decoded, Response.decode_encode ?_ short⟩
    rw [(answer_tells .standard request).2]
    decide
  · intro bytes refusal deep
    apply result_run_of_undecoded
    rcases decoded : Request.decode bytes with - | other
    · rfl
    · rcases Request.decode_eq_some_iff.mp decoded with ⟨levels, encoded, bounded⟩
      have := deep other levels encoded
      omega

/-- A request for the code of one message. -/
def oneMessageRequest : Request :=
  { files := [{ name := "a.proto", package := "p", messages := [{ name := "M" }] }] }

theorem run_writes_answer_for_one_message :
    (∃ written, (run .standard (.ok oneMessageRequest.encode) none).result = .ok written
      ∧ Response.decode written = some (answer .standard oneMessageRequest))
    ∧ (run .standard (.ok [0]) none).result = .error .malformed := by
  have narrow : oneMessageRequest.IsNarrow := by
    intro file member
    rw [oneMessageRequest, List.mem_singleton] at member
    subst member
    exact ⟨by simp [MessageDescriptor.AreNarrow, MessageDescriptor.IsNarrow], by simp, by simp⟩
  have encoded := run_writes_answer.1 oneMessageRequest narrow (by decide +kernel)
  constructor
  · exact run_writes_answer.2.1 _ _ _ encoded (by decide +kernel) (by decide +kernel)
  · apply run_writes_answer.2.2.2.1
    rintro request levels ⟨records, written, -, rfl⟩
    have read := readRecordsFrom_of_written written (Nat.le_refl _) (Nat.le_refl _)
    contradiction

/-! ## Deep nesting -/

/-- A message with messages in one another, so many below it. -/
def nestedMessage : Nat → MessageDescriptor
  | 0 => {}
  | depth + 1 => { nested := [nestedMessage depth] }

/-- A request whose options are wrong and whose messages lie deep in one another. -/
def deepRequest (depth : Nat) : Request :=
  { parameter := "target_package=", files := [{ messages := [nestedMessage depth] }] }

theorem isNarrow_nestedMessage (depth : Nat) : (nestedMessage depth).IsNarrow := by
  induction depth with
  | zero => simp [nestedMessage, MessageDescriptor.IsNarrow, MessageDescriptor.AreNarrow]
  | succ depth ih =>
    simp [nestedMessage, MessageDescriptor.IsNarrow, MessageDescriptor.AreNarrow, ih]

theorem toRecords_nestedMessage_succ (depth : Nat) :
    (nestedMessage (depth + 1)).toRecords
      = [.text 1 [], .message 3 (nestedMessage depth).toRecords, .message 7 [.varint 7 0]] := by
  simp [nestedMessage, MessageDescriptor.toRecords, MessageDescriptor.recordsAt, numberOfBool]

theorem le_nestingAll_nestedMessage (depth : Nat) :
    depth ≤ Record.nestingAll (nestedMessage depth).toRecords := by
  induction depth with
  | zero => exact Nat.zero_le _
  | succ depth ih =>
    rw [toRecords_nestedMessage_succ]
    simp only [Record.nestingAll, Record.nesting]
    omega

theorem length_writeAll_nestedMessage_le (depth : Nat) :
    (Record.writeAll (nestedMessage depth).toRecords).length ≤ 100 * depth + 100 := by
  induction depth with
  | zero => decide
  | succ depth ih =>
    have name := length_textField_le 1 []
    have held := length_textField_le 3 (Record.writeAll (nestedMessage depth).toRecords)
    have options : (textField 7 (numberField 7 0 ++ [])).length = 4 := by decide
    rw [toRecords_nestedMessage_succ]
    simp only [Record.writeAll, Record.write, List.length_append, List.length_nil] at *
    omega

theorem toRecords_deepRequest (depth : Nat) :
    (deepRequest depth).toRecords
      = [.text 2 "target_package=", .message 15 [.text 1 [], .text 2 [],
          .message 4 (nestedMessage depth).toRecords, .message 9 []]] := by
  simp [deepRequest, Request.toRecords, FileDescriptor.toRecords, MessageDescriptor.recordsAt]

theorem length_encode_deepRequest_le (depth : Nat) :
    (deepRequest depth).encode.length ≤ 100 * depth + 300 := by
  have held := length_writeAll_nestedMessage_le depth
  have message := length_textField_le 4 (Record.writeAll (nestedMessage depth).toRecords)
  have parameter : (textField 2 "target_package=").length = 17 := by decide
  have others : (textField 1 []).length + (textField 2 []).length + (textField 9 []).length = 6 := by
    decide
  have file := length_textField_le 15 (textField 1 [] ++ (textField 2 []
    ++ (textField 4 (Record.writeAll (nestedMessage depth).toRecords) ++ (textField 9 [] ++ []))))
  rw [Request.encode, toRecords_deepRequest]
  simp only [Record.writeAll, Record.write, List.length_append, List.length_nil] at *
  omega

theorem lt_levels_deepRequest (depth : Nat) : depth < (deepRequest depth).levels := by
  have deep := le_nestingAll_nestedMessage depth
  rw [Request.levels, toRecords_deepRequest]
  simp only [Record.nestingAll, Record.nesting]
  omega

theorem isNarrow_deepRequest (depth : Nat) : (deepRequest depth).IsNarrow := by
  intro file member
  rw [deepRequest, List.mem_singleton] at member
  subst member
  refine ⟨?_, by simp, by simp⟩
  simp [MessageDescriptor.AreNarrow, isNarrow_nestedMessage]

theorem answer_deepRequest (depth : Nat) :
    answer .standard (deepRequest depth) = .failure "option target_package requires a value" := by
  have parsed : (Options.ofParameter "target_package=").result = .error .targetPackageEmpty := by
    decide +kernel
  have told := answer_tells .standard (deepRequest depth)
  rw [outcome, show (deepRequest depth).parameter = "target_package=" from rfl, parsed] at told
  rcases response : answer .standard (deepRequest depth) with ⟨error, features, files⟩
  rw [response] at told
  rcases told with ⟨⟨rfl, rfl⟩, rfl⟩
  rfl

/-- The response to a request whose messages lie too deep would tell an error in the
options, but the plugin fails. -/
theorem run_fails_on_deep_nesting : ∃ request : Request,
    Encodes request.encode request request.levels
      ∧ answer .standard request = .failure "option target_package requires a value"
      ∧ (run .standard (.ok request.encode) none).result = .error .malformed := by
  have short := length_encode_deepRequest_le maxNesting
  have limit : maxNesting = 10000 := rfl
  have encoded := Request.encodes_encode (isNarrow_deepRequest maxNesting) (by omega)
  refine ⟨deepRequest maxNesting, encoded, answer_deepRequest maxNesting, ?_⟩
  apply result_run_of_undecoded
  exact decode_eq_none_of_too_deep encoded (lt_levels_deepRequest maxNesting)

end Protoclass.Plugin
