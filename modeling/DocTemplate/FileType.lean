import DocTemplate.Group.Classify
import DocTemplate.Group.Expansion
import DocTemplate.Output.LineBreaks
import DocTemplate.Output.Repair

namespace DocTemplate

structure FileType where
  /-- The elements whose text can hold template groups. -/
  textTags : List String
  nicknames : Nicknames
  /-- Later rules win over earlier ones. -/
  expansionRules : List ExpansionRule
  /-- Where an insertion goes that has no other target. -/
  insertTag : Option String
  rewriterTargets : List (String × ExpansionTarget)
  repairRules : List RepairRule
  lineBreaks : Option LineBreaks
  deriving DecidableEq, Repr, Inhabited

namespace FileType

def expander (t : FileType) : Expander := ⟨t.expansionRules, t.insertTag, t.rewriterTargets⟩

def plain : FileType := ⟨[], [], [], none, [], [], none⟩

def emptyParagraph : String := "<w:p></w:p>"

def docx : FileType where
  textTags :=
    ["w:t", "a:t", "m:t", "Company", "HyperlinkBase", "Manager", "cp:category", "cp:keywords",
      "cp:contentStatus", "dc:creator", "dc:description", "dc:subject", "dc:title", "vt:lpstr",
      "vt:lpwstr"]
  nicknames := [("inline", "w:r"), ("block", "w:p")]
  expansionRules := [⟨"w:tc", some "w:tbl", "w:tr"⟩]
  insertTag := some "w:p"
  rewriterTargets := [("$rawXml", .tag "w:p")]
  repairRules :=
    [⟨"w:sdtContent", ["w:p", "w:r", "w:commentRangeStart", "w:sdt"], .insert emptyParagraph⟩,
      ⟨"w:tc", ["w:p"], .insert emptyParagraph⟩, ⟨"w:tr", ["w:tc"], .drop⟩,
      ⟨"w:tbl", ["w:tr"], .drop⟩]
  lineBreaks := some ⟨"w:br", ["w:t"]⟩

end FileType

end DocTemplate
