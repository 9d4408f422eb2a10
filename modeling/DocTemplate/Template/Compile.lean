import DocTemplate.FileType
import DocTemplate.Group.Extraction
import DocTemplate.Program.Parse
import DocTemplate.Program.Resolve

namespace DocTemplate

def reportAs {κ α : Type} (kind : ErrorKind) (message : κ → String) :
    Except (Fault κ) α → Except TemplateError α :=
  Except.mapError fun f => f.report kind message

def readStream (fileType : FileType) (delimiters : Delimiters) (document : String) :
    Except TemplateError TemplateStream := do
  let tokens ← reportAs .grammar MarkupCause.message (tokenize fileType.textTags document)
  reportAs .grammar GroupCause.message (extractGroups delimiters fileType.nicknames tokens)

def expandStream (fileType : FileType) (stream : TemplateStream) :
    Except TemplateError TemplateStream :=
  reportAs .structural StructureCause.message (fileType.expander.expand stream)

def parseStream (stream : TemplateStream) : Except TemplateError Program :=
  reportAs .grammar ParseCause.message (parseProgram stream)

def resolveNames (program : Program) (globals : List String) : Except TemplateError Resolution :=
  reportAs .grammar ScopeCause.message (resolve program globals)

def compileDocument (fileType : FileType) (delimiters : Delimiters) (document : String) :
    Except TemplateError Program := do
  let stream ← readStream fileType delimiters document
  let stream ← expandStream fileType stream
  parseStream stream

end DocTemplate
