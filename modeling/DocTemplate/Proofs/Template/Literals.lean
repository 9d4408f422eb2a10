import DocTemplate.Proofs.Group.Closings
import DocTemplate.Proofs.Template.Substitution
import DocTemplate.Proofs.Token.Literals

namespace DocTemplate

structure Group.IsLiteral (g : Group) (cs : List Char) : Prop where
  placeholder : g.kind = .placeholder
  tokens : ∃ opening literal closing, g.tokens = [opening, literal, closing] ∧
    opening.kind = .opening ∧ literal.kind = .string ∧
    literal.literal = some (.str (String.ofList cs)) ∧ closing.kind = .closing

section

variable {q : Quote} {cs : List Char}

theorem readGroup_literal (nicknames : Nicknames) {source : LocatedText}
    (hcs : ∀ c ∈ cs, c ∉ Quote.typographic)
    (h : source.text.toList = Delimiters.standard.opening.toList ++ q.literal cs ++
      Delimiters.standard.closing.toList) :
    ∃ g, readGroup .standard nicknames source = .ok g ∧ g.IsLiteral cs := by
  rw [readGroup, scanGroup_eq h, lexemes_literal hcs]
  exact ⟨_, rfl, rfl, _, _, _, rfl, rfl, rfl, rfl, rfl⟩

namespace Extraction

variable {run : TextRun} {opening closing : List Char} {x : Extraction} {p : PendingGroup}
  {ds tail : List DecodedChar}

theorem read_quoted (run : TextRun) (opening closing : List Char) (tail : List DecodedChar)
    (hp : x.pending = some p)
    (h : ∀ place ∈ p.quoting.steps (ds.map DecodedChar.char), place.1 = true) :
    ∃ p', read run opening closing x 0 (ds ++ tail) =
        read run opening closing { x with pending := some p' } 0 tail ∧
      p'.quoting = (ds.map DecodedChar.char).foldl Quoting.next p.quoting ∧
      p'.source = gather run p.source ds ∧ p'.held = p.held := by
  induction ds generalizing x p with
  | nil => exact ⟨p, by rw [← hp]; rfl, rfl, rfl, rfl⟩
  | cons d ds ih =>
    obtain ⟨hopen, hopens⟩ := List.forall_mem_cons.mp h
    have hclosed : ¬(p.quote = none ∧ startsWith closing (d :: (ds ++ tail)) = true) := by
      rintro ⟨hq, -⟩
      simp [PendingGroup.quoting, hq] at hopen
    rw [← quoting_track] at hopens
    let x' : Extraction := { x with
      pending := some { PendingGroup.track p d.char with source := gather run p.source [d] } }
    have hp' : x'.pending = some { PendingGroup.track p d.char with
        source := gather run p.source [d] } := rfl
    obtain ⟨p', hread, hquoting, hsource, hheld⟩ := ih hp' hopens
    refine ⟨p', ?_, ?_, hsource, hheld.trans (held_track p d.char)⟩
    · rw [List.cons_append, read_track hp hclosed]
      exact hread
    · rw [hquoting, List.map_cons, List.foldl_cons, ← quoting_track]
      rfl

theorem startsWith_singleton {c : Char} {d : DecodedChar} (h : d.char ≠ c) :
    ¬ startsWith [c] (d :: ds) = true := by
  simp [startsWith, Ne.symm h]

theorem read_literal (run : TextRun) (opening : List Char) (tail : List DecodedChar)
    (hcs : ∀ c ∈ cs, c ∉ Quote.typographic) (hp : x.pending = some p)
    (hq : p.quoting = .outside) (hds : ds.map DecodedChar.char = q.literal cs) :
    ∃ p', read run opening ['\x7d'] x 0 (ds ++ tail) =
        read run opening ['\x7d'] { x with pending := some p' } 0 tail ∧
      p'.quoting = .outside ∧ p'.source = gather run p.source ds ∧ p'.held = p.held := by
  obtain ⟨mark, body, rfl, hmark, hbody⟩ := List.map_eq_cons_iff.mp hds
  obtain ⟨hopen, hfold⟩ := Quoting.steps_spell (q := q) hcs
  replace hbody : body.map DecodedChar.char = q.spell cs ++ [q.mark] := hbody
  have hfirst : ¬ (p.quote = none ∧ startsWith ['\x7d'] (mark :: (body ++ tail)) = true) :=
    fun h => startsWith_singleton (by rw [hmark]; cases q <;> decide) h.2
  have htrack : (PendingGroup.track p mark.char).quoting = .inside q := by
    rw [quoting_track, hq, hmark, Quoting.next_open q.of?_mark]
  have hplaces : ∀ place ∈ (PendingGroup.track p mark.char).quoting.steps
      (body.map DecodedChar.char), place.1 = true := by
    rw [htrack, hbody, Quoting.steps_append, hfold]
    exact List.forall_mem_append.mpr ⟨hopen, by simp [Quoting.steps, Quoting.inside]⟩
  let x' : Extraction := { x with
    pending := some { PendingGroup.track p mark.char with source := gather run p.source [mark] } }
  have hp' : x'.pending = some { PendingGroup.track p mark.char with
      source := gather run p.source [mark] } := rfl
  obtain ⟨p', hread, hquoting, hsource, hheld⟩ :=
    read_quoted run opening ['\x7d'] tail hp' hplaces
  refine ⟨p', ?_, ?_, hsource, hheld.trans (held_track p mark.char)⟩
  · rw [List.cons_append, read_track hp hfirst]
    exact hread
  · calc p'.quoting
      _ = (q.spell cs ++ [q.mark]).foldl Quoting.next (.inside q) := by
        rw [hquoting, hbody, ← htrack]
        rfl
      _ = .outside := by
        rw [List.foldl_append, hfold]
        exact Quoting.next_close q.mark_ne_backslash q.includes_mark

theorem openGroup_of_run (run : TextRun) (hr : x.run = []) (c : DecodedChar)
    (delimiter : List DecodedChar) :
    ∃ p, x.openGroup run c delimiter = { x with pending := some p } ∧ p.quoting = .outside ∧
      p.source = gather run .empty delimiter ∧ p.held = [] := by
  rw [openGroup, flush, if_pos hr]
  exact ⟨_, rfl, rfl, rfl, rfl⟩

theorem content_literal {text : String} (hcs : ∀ c ∈ cs, c ∉ Quote.typographic)
    (hp : x.pending = none) (hr : x.run = []) (hd : run.delimiters = .standard)
    (ht : decode text.toList = '\x7b' :: q.literal cs ++ ['\x7d']) :
    ∃ g, g.IsLiteral cs ∧ x.content run text =
      .ok { x with items := .group x.groups.size :: x.items, groups := x.groups.push g } := by
  obtain ⟨_, _, hdecoded, hfront, hend⟩ := List.map_eq_append_iff.mp ht
  obtain ⟨first, ds, rfl, hfirst, hds⟩ := List.map_eq_cons_iff.mp hfront
  obtain ⟨last, _, rfl, hlast, hnil⟩ := List.map_eq_cons_iff.mp hend
  obtain rfl := List.map_eq_nil_iff.mp hnil
  obtain ⟨p₁, hopened, hquoting₁, hsource₁, hheld₁⟩ := openGroup_of_run run hr first [first]
  have hp₁ : Extraction.pending { x with pending := some p₁ } = some p₁ := rfl
  obtain ⟨p, hread, hquoting, hsource, hheld⟩ :=
    read_literal run ['\x7b'] [last] hcs hp₁ hquoting₁ hds
  have htext : (p.finished run [last]).text.toList =
      Delimiters.standard.opening.toList ++ q.literal cs ++ Delimiters.standard.closing.toList := by
    rw [PendingGroup.finished, LocatedText.finish, toList_gather, hsource, toList_gather,
      hsource₁, toList_gather, hds, List.map_singleton, List.map_singleton, hfirst, hlast]
    rfl
  obtain ⟨g, hg, hliteral⟩ := readGroup_literal run.nicknames hcs htext
  refine ⟨g, hliteral, ?_⟩
  have hclose : ({ x with pending := some p } : Extraction).closeGroup run p [last] =
      .ok { x with items := .group x.groups.size :: x.items, groups := x.groups.push g } := by
    rw [closeGroup_eq, hd, hg, hheld, hheld₁, hp]
    rfl
  have hfirst : [first].map DecodedChar.char = ['\x7b'] := by rw [List.map_singleton, hfirst]
  have hlast : [last].map DecodedChar.char = ['\x7d'] := by rw [List.map_singleton, hlast]
  have hall : read run ['\x7b'] ['\x7d'] x 0 (first :: [] ++ (ds ++ [last])) =
      .ok { x with items := .group x.groups.size :: x.items, groups := x.groups.push g } := by
    rw [read_open hp hfirst, hopened, hread, ← List.append_nil [last],
      read_close rfl (congrArg Quoting.quote hquoting) hlast, hclose]
    rfl
  calc x.content run text
    _ = (read run ['\x7b'] ['\x7d'] x 0 (first :: [] ++ (ds ++ [last]))).map (·.flush run) := by
      rw [content, hd, hdecoded]
      rfl
    _ = .ok { x with items := .group x.groups.size :: x.items, groups := x.groups.push g } := by
      rw [hall, Except.map, flush, if_pos hr]

end Extraction

end

def textRun (text : String) : String := "<w:t>" ++ text ++ "</w:t>"

def textStart : RawToken := .tag "w:t" .opening "<w:t>" 0 true

def textEnd (offset : Nat) : RawToken := .tag "w:t" .closing "</w:t>" offset true

def groupStream (before after : RawToken) (g : Group) : TemplateStream :=
  ⟨[.raw before, .group 0, .raw after], #[g]⟩

def literalProgram (before after : RawToken) (site : Site) (s : String) : Program :=
  ⟨[.verbatim (.raw before), .expr (.constant site (.literal (.str s))), .verbatim (.raw after)], 1⟩

section

variable {q : Quote} {cs : List Char} {text : String}

theorem read_textRun (after : List Char) :
    Markup.read (['w', ':', 't', '>'] ++ after) = .tag ['w', ':', 't'] .opening 4 := rfl

theorem read_textRun_end (after : List Char) :
    Markup.read (['/', 'w', ':', 't', '>'] ++ after) = .tag ['w', ':', 't'] .closing 5 := rfl

theorem tokenize_textRun (hne : text ≠ "") (hlt : '<' ∉ text.toList) :
    ∃ offset, tokenize FileType.docx.textTags (textRun text) =
      .ok [textStart, .content text 5 true, textEnd offset] := by
  refine ⟨Span.clamp (5 + byteLength text.toList), ?_⟩
  have hcut : Cut FileType.docx.textTags 0 0
      ('<' :: ['w', ':', 't', '>'] ++
        (text.toList ++ ('<' :: ['/', 'w', ':', 't', '>'] ++ []))) _ :=
    .tag read_textRun (.content (by simpa using hne) hlt (by simp) (.tag read_textRun_end .nil))
  have htext : (textRun text).toList =
      '<' :: ['w', ':', 't', '>'] ++ (text.toList ++ ('<' :: ['/', 'w', ':', 't', '>'] ++ [])) := by
    simp [textRun]
  rw [tokenize, htext, hcut.tokenizeFrom, String.ofList_toList]
  rfl

theorem readStream_literal (hcs : ∀ c ∈ cs, c ∉ Quote.typographic)
    (ht : text.toList = '\x7b' :: escape (q.literal cs) ++ ['\x7d']) :
    ∃ offset g, g.IsLiteral cs ∧ readStream .docx .standard (textRun text) =
      .ok (groupStream textStart (textEnd offset) g) := by
  have hne : text ≠ "" := by
    rintro rfl
    cases ht
  have hlt : '<' ∉ text.toList := by
    rw [ht]
    simp [not_mem_escape]
  have hdecode : decode text.toList = '\x7b' :: q.literal cs ++ ['\x7d'] := by
    have hplain {c : Char} (hc : c ≠ '&') (ds : List Char) : decode (c :: ds) = c :: decode ds :=
      decode_char fun h => absurd h hc
    rw [ht, List.cons_append, hplain (by decide), decode_append (hasBareAmpersand_escape _),
      decode_escape, hplain (by decide)]
    rfl
  obtain ⟨offset, htokens⟩ := tokenize_textRun hne hlt
  let run : TextRun := ⟨.standard, FileType.docx.nicknames, 5, true⟩
  have hd : run.delimiters = .standard := rfl
  obtain ⟨g, hg, hcontent⟩ :=
    Extraction.content_literal (x := .push .start (.raw textStart)) hcs rfl rfl hd hdecode
  refine ⟨offset, g, hg, ?_⟩
  have hextract : extractFrom .standard FileType.docx.nicknames .start 0
      [textStart, .content text 5 true, textEnd offset] =
      .ok ⟨[.raw (textEnd offset), .group 0, .raw textStart], #[g], none, [], 0⟩ := by
    rw [extractFrom_whole rfl, extractFrom_text rfl, hcontent]
    rfl
  rw [readStream, htokens, reportAs, mapError_ok]
  change reportAs .grammar GroupCause.message (extractGroups _ _ _) = _
  rw [extractGroups, hextract]
  rfl

theorem expand_groupStream (before after : RawToken) {g : Group} (h : g.kind = .placeholder)
    (e : Expander) :
    e.expand (groupStream before after g) = .ok (groupStream before after g) := by
  have hlookup : (groupStream before after g).groups.lookup 0 = g := rfl
  have hstraight : (groupStream before after g).Straight := by
    intro id hid
    obtain rfl := List.mem_singleton.mp hid
    rw [hlookup, h]
    rfl
  have hother : e.expandGroup (groupStream before after g) 0 =
      .ok (groupStream before after g) := by
    apply Expander.expandGroup_other <;> rw [hlookup, h] <;> exact nofun
  rw [Expander.expand_eq hstraight.pairGroups]
  change [0].foldlM e.expandGroup _ = _
  rw [List.foldlM_cons, hother]
  rfl

theorem parseProgram_literal (before after : RawToken) {g : Group} (h : g.IsLiteral cs) :
    ∃ site, parseProgram (groupStream before after g) =
      .ok (literalProgram before after site (String.ofList cs)) := by
  obtain ⟨tokens, kind, span, target, direction, requiresPartner, partner⟩ := g
  obtain ⟨rfl, ⟨_, lexeme₁, span₁, literal₁⟩, ⟨_, lexeme, place, _⟩, ⟨_, lexeme₂, span₂, literal₂⟩,
    rfl, rfl, rfl, rfl, rfl⟩ := h
  exact ⟨⟨0, place⟩, rfl⟩

theorem compile_literal (hcs : ∀ c ∈ cs, c ∉ Quote.typographic)
    (ht : text.toList = '\x7b' :: escape (q.literal cs) ++ ['\x7d']) :
    ∃ offset site, Template.compile .docx .standard (textRun text) =
      .ok ⟨literalProgram textStart (textEnd offset) site (String.ofList cs),
        FileType.docx.repairRules⟩ := by
  obtain ⟨offset, g, hg, hread⟩ := readStream_literal hcs ht
  obtain ⟨site, hparse⟩ := parseProgram_literal textStart (textEnd offset) hg
  have hexpand := expand_groupStream textStart (textEnd offset) hg.placeholder
    FileType.docx.expander
  have hcompile : compileDocument .docx .standard (textRun text) =
      .ok (literalProgram textStart (textEnd offset) site (String.ofList cs)) :=
    bind_eq_ok.mpr ⟨_, hread, bind_eq_ok.mpr ⟨_, reportAs_eq_ok.mpr hexpand,
      reportAs_eq_ok.mpr hparse⟩⟩
  exact ⟨offset, site, bind_eq_ok.mpr ⟨_, hcompile, rfl⟩⟩

theorem render_literalProgram (before after : RawToken) (site : Site) (s : String)
    (around : Surroundings) (data : List (String × Value)) (store : Store) :
    ∃ store', (literalProgram before after site s).render around data store =
      (.ok [.raw before, .text s, .raw after], store') := ⟨_, rfl⟩

theorem repair_textRun (s : String) (offset : Nat) :
    repair FileType.docx.repairRules [.raw textStart, .text s, .raw (textEnd offset)] =
      [.raw textStart, .text s, .raw (textEnd offset)] := rfl

end

/-- A text without typographic quotation marks that is written as a string literal, in either of
the two straight marks, renders to the text itself, whatever else is in it. -/
theorem Template.render_literal (q : Quote) (text : String)
    (h : ∀ c ∈ text.toList, c ∉ Quote.typographic) :
    ∃ template, compile .docx .standard
        (textRun ("\x7b" ++ escapeText (String.ofList (q.literal text.toList)) ++ "\x7d")) =
          .ok template ∧
      ∀ around data store, ∃ store', template.render around true data store =
        (.ok (textRun (escapeText text)), store') := by
  have ht : ("\x7b" ++ escapeText (String.ofList (q.literal text.toList)) ++ "\x7d").toList =
      '\x7b' :: escape (q.literal text.toList) ++ ['\x7d'] := by
    simp [escapeText]
  obtain ⟨offset, site, hcompile⟩ := compile_literal h ht
  refine ⟨_, hcompile, fun around data store => ?_⟩
  obtain ⟨store', hrender⟩ := render_literalProgram textStart (textEnd offset) site
    (String.ofList text.toList) around data store
  refine ⟨store', ?_⟩
  rw [render, hrender]
  simp only [if_true, repair_textRun, String.ofList_toList]
  rfl

/-- Braces, markup, entities, both quotes, a backslash, a line break and a NUL. -/
def specialText : String := "\x7b\"'\\n &amp;<w:p>\x7d\n\x00"

theorem Template.render_literal_specialText :
    (∀ c ∈ specialText.toList, c ∉ Quote.typographic) ∧
      String.ofList (Quote.single.literal specialText.toList) =
        "'\x7b\"\\'\\\\n &amp;<w:p>\x7d\n\x00'" ∧
      ∃ template, compile .docx .standard
          (textRun ("\x7b" ++
            escapeText (String.ofList (Quote.single.literal specialText.toList)) ++ "\x7d")) =
              .ok template ∧
        ∀ around data store, ∃ store', template.render around true data store =
          (.ok "<w:t>\x7b&quot;&apos;\\n &amp;amp;&lt;w:p&gt;\x7d\n\x00</w:t>", store') := by
  have hall : specialText.toList.all (fun c => decide (c ∉ Quote.typographic)) = true := by decide
  have h : ∀ c ∈ specialText.toList, c ∉ Quote.typographic := fun c hc =>
    of_decide_eq_true (List.all_eq_true.mp hall c hc)
  have hliteral : String.ofList (Quote.single.literal specialText.toList) =
      "'\x7b\"\\'\\\\n &amp;<w:p>\x7d\n\x00'" := by
    decide +kernel
  have hrendered : textRun (escapeText specialText) =
      "<w:t>\x7b&quot;&apos;\\n &amp;amp;&lt;w:p&gt;\x7d\n\x00</w:t>" := by decide +kernel
  rw [← hrendered]
  exact ⟨h, hliteral, render_literal .single specialText h⟩

/-- A typographic mark ends the literal, and what follows is no longer quoted. -/
example : (Template.compile .docx .standard
    (textRun ("\x7b" ++ escapeText (String.ofList (Quote.single.literal ['\u2019'])) ++
      "\x7d"))).isOk = false := by
  decide +kernel

end DocTemplate
