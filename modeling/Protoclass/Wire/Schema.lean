/-!
# The messages of requests and responses

Which fields of a request or a response, and of the messages inside it, are
messages themselves or packed lists of integers.  Every such field is read, and
has to be well formed, whether or not the generator uses what it holds.
-/

namespace Protoclass.Wire

/-- A message that can occur in a request or a response. -/
inductive MessageType where
  | request
  | version
  | file
  | message
  | extensionRange
  | extensionRangeOptions
  | extensionDeclaration
  | reservedRange
  | field
  | oneof
  | enum
  | enumValue
  | service
  | method
  | fileOptions
  | messageOptions
  | fieldOptions
  | editionDefault
  | featureSupport
  | oneofOptions
  | enumOptions
  | enumValueOptions
  | serviceOptions
  | methodOptions
  | uninterpretedOption
  | namePart
  | featureSet
  /-- The features that one language adds. -/
  | ownFeatures
  | sourceInfo
  | location
  | response
  | outputFile
  | codeInfo
  | codeSpan
  deriving DecidableEq, Repr

/-- A field that is not a plain value. -/
inductive Part where
  /-- A message of its own. -/
  | message (type : MessageType)
  /-- A list of integers, which may be packed into one field. -/
  | integers
  deriving DecidableEq, Repr

/-- The fields of a message that are not plain values, by number. -/
def MessageType.parts : MessageType → List (Nat × Part)
  | .request => [(3, .message .version), (15, .message .file), (17, .message .file)]
  | .version => []
  | .file =>
    [(4, .message .message), (5, .message .enum), (6, .message .service), (7, .message .field),
     (8, .message .fileOptions), (9, .message .sourceInfo), (10, .integers), (11, .integers)]
  | .message =>
    [(2, .message .field), (3, .message .message), (4, .message .enum),
     (5, .message .extensionRange), (6, .message .field), (7, .message .messageOptions),
     (8, .message .oneof), (9, .message .reservedRange)]
  | .extensionRange => [(3, .message .extensionRangeOptions)]
  | .extensionRangeOptions =>
    [(2, .message .extensionDeclaration), (50, .message .featureSet),
     (999, .message .uninterpretedOption)]
  | .extensionDeclaration => []
  | .reservedRange => []
  | .field => [(8, .message .fieldOptions)]
  | .oneof => [(2, .message .oneofOptions)]
  | .enum =>
    [(2, .message .enumValue), (3, .message .enumOptions), (4, .message .reservedRange)]
  | .enumValue => [(3, .message .enumValueOptions)]
  | .service => [(2, .message .method), (3, .message .serviceOptions)]
  | .method => [(4, .message .methodOptions)]
  | .fileOptions => [(50, .message .featureSet), (999, .message .uninterpretedOption)]
  | .messageOptions => [(12, .message .featureSet), (999, .message .uninterpretedOption)]
  | .fieldOptions =>
    [(19, .integers), (20, .message .editionDefault), (21, .message .featureSet),
     (22, .message .featureSupport), (999, .message .uninterpretedOption)]
  | .editionDefault => []
  | .featureSupport => []
  | .oneofOptions => [(1, .message .featureSet), (999, .message .uninterpretedOption)]
  | .enumOptions => [(7, .message .featureSet), (999, .message .uninterpretedOption)]
  | .enumValueOptions =>
    [(2, .message .featureSet), (4, .message .featureSupport),
     (999, .message .uninterpretedOption)]
  | .serviceOptions => [(34, .message .featureSet), (999, .message .uninterpretedOption)]
  | .methodOptions => [(35, .message .featureSet), (999, .message .uninterpretedOption)]
  | .uninterpretedOption => [(2, .message .namePart)]
  | .namePart => []
  | .featureSet => [(1002, .message .ownFeatures)]
  | .ownFeatures => []
  | .sourceInfo => [(1, .message .location)]
  | .location => [(1, .integers), (2, .integers)]
  | .response => [(15, .message .outputFile)]
  | .outputFile => [(16, .message .codeInfo)]
  | .codeInfo => [(1, .message .codeSpan)]
  | .codeSpan => [(1, .integers)]

/-- What the field of a given number is, when it is not a plain value. -/
def MessageType.part? (type : MessageType) (number : Nat) : Option Part :=
  type.parts.lookup number

end Protoclass.Wire
