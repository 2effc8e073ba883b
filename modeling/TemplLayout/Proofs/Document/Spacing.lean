import Mathlib.Logic.Relation
import TemplLayout.Proofs.Document.Format
import TemplLayout.Proofs.Document.Run
import TemplLayout.Proofs.Markup.Spacing

/-!
# TemplLayout.Proofs.Document.Spacing

Sources that differ in their spacing only.

* `DirectiveEdit body body'` — the blank characters around a directive, behind its keyword, or around
  the parentheses of its header are others.
* `PassageEdit q q'`         — the same of a passage, or the blank ends of the text before its directive
  are others, or that text is a block's and one of its texts is respaced.
* `Edit source source'`      — one passage is edited, or the blank ends of the text behind all of them.

No edit changes what the source is formatted to (`format_edits`). Two passages that are alike in what is
read of them take alike readings to alike readings (`Advances.exists_alike`), and alike documents are
written in the same way.
-/

namespace TemplLayout

open Text

/-! ## Directives -/

inductive DirectiveEdit : Text → Text → Prop
  /-- Behind `{%` and in front of `%}`. -/
  | ends {d w v w' v' : Text} : w.isBlank = true → v.isBlank = true → w'.isBlank = true →
      v'.isBlank = true → DirectiveEdit (w ++ d ++ v) (w' ++ d ++ v')
  | keyword {k : Keyword} {w x x' argument : Text} : w.isBlank = true → x.isBlank = true →
      x'.isBlank = true → x ≠ [] → x' ≠ [] →
      DirectiveEdit (w ++ k.spelling ++ (x ++ argument)) (w ++ k.spelling ++ (x' ++ argument))
  /-- In front of the first parenthesis, behind it, and in front of the last one. -/
  | header {w x name y y' z z' params u u' v : Text} : w.isBlank = true → x.isBlank = true →
      x ≠ [] → '(' ∉ name → y.isBlank = true → y'.isBlank = true → z.isBlank = true →
      z'.isBlank = true → u.isBlank = true → u'.isBlank = true → v.isBlank = true →
      DirectiveEdit
        (w ++ Keyword.templ.spelling ++ (x ++ name ++ y ++ '(' :: (z ++ params ++ u ++ ')' :: v)))
        (w ++ Keyword.templ.spelling ++
          (x ++ name ++ y' ++ '(' :: (z' ++ params ++ u' ++ ')' :: v)))

/-- No delimiter comes about. -/
theorem DirectiveEdit.lacks {body body' : Text} (h : DirectiveEdit body body')
    (hbody : Lacks closesDirective body) : Lacks closesDirective body' := by
  have hloose := pattern_closesDirective.loose
  cases h with
  | ends hw hv hw' hv' =>
    rw [hloose.append_blank hv, hloose.blank_append hw] at hbody
    rwa [hloose.append_blank hv', hloose.blank_append hw']
  | keyword hw hx hx' hne hne' =>
    exact pattern_closesDirective.lacks_exchange_blank hx hx' (by simp [hne, hne']) hbody
  | @header w x name y y' z z' params u u' v hw hx hne hname hy hy' hz hz' hu hu' hv =>
    have hfront : Lacks closesDirective (w ++ Keyword.templ.spelling ++ (x ++ name)) :=
      pattern_closesDirective.lacks_of_isInfix hbody ⟨[], _, by simp; rfl⟩
    have hparams : Lacks closesDirective params :=
      pattern_closesDirective.lacks_of_isInfix hbody
        ⟨w ++ Keyword.templ.spelling ++ (x ++ name ++ y ++ '(' :: z), u ++ ')' :: v, by simp⟩
    have hopen : Lacks closesDirective ('(' :: (z' ++ params ++ u')) :=
      lacks_cons.2 ⟨rfl, (hloose.append_blank hu').2 ((hloose.blank_append hz').2 hparams)⟩
    have hclose : Lacks closesDirective (')' :: v) := lacks_cons.2 ⟨rfl, hloose.of_isBlank hv⟩
    have hback := pattern_closesDirective.lacks_append hopen hclose (seam_pair (.inl (by simp)))
    have hall := pattern_closesDirective.lacks_append ((hloose.append_blank hy').2 hfront) hback
      (seam_pair (.inl (by simp)))
    simpa using hall

/-- What is read of two directives is the same. -/
structure Directive.Alike (d d' : Directive) : Prop where
  keyword : d.keyword? = d'.keyword?
  argument : d.keyword? ≠ some .templ → d.argument = d'.argument
  signature : Signature.ofText? d.argument = Signature.ofText? d'.argument

theorem Directive.Alike.of_text {d d' : Directive} (h : d.text = d'.text) : d.Alike d' := by
  obtain ⟨text, p⟩ := d
  obtain ⟨text', p'⟩ := d'
  subst h
  exact ⟨rfl, fun _ => rfl, rfl⟩

/-- The signature in the argument of a header, whatever its spaces. -/
theorem ofText?_argument {x name y z params u v : Text} (hx : x.isBlank = true)
    (hname : '(' ∉ name) (hy : y.isBlank = true) (hz : z.isBlank = true) (hu : u.isBlank = true)
    (hv : v.isBlank = true) :
    Signature.ofText? (Text.trim (x ++ name ++ y ++ '(' :: (z ++ params ++ u ++ ')' :: v))) =
      if Text.isWord name.trim then some ⟨name.trim, params.trim⟩ else none := by
  have hends : Text.endsBlank ((x ++ name ++ y).trimStart ++ '(' :: (z ++ params ++ u ++ [')'])) =
      false := by
    rw [← List.cons_append, ← List.append_assoc, endsBlank_append (List.cons_ne_nil _ _)]
    rfl
  have htrim : Text.trim (x ++ name ++ y ++ '(' :: (z ++ params ++ u ++ ')' :: v)) =
      (x ++ name ++ y).trimStart ++ '(' :: (z ++ params ++ u ++ ')' :: []) := by
    have hsplit : x ++ name ++ y ++ '(' :: (z ++ params ++ u ++ ')' :: v) =
        x ++ name ++ y ++ '(' :: (z ++ params ++ u ++ [')']) ++ v := by simp
    rw [hsplit, trim_append_blank _ hv, trim, trimStart_append_of_startsBlank _ rfl,
      trimEnd_eq hends]
  have hopen : '(' ∉ (x ++ name ++ y).trimStart := by
    have hblank : ∀ w : Text, w.isBlank = true → '(' ∉ w :=
      fun w hw hmem => absurd (isBlank_iff.1 hw _ hmem) (by decide)
    intro hmem
    have hall := (List.dropWhile_suffix isBlankChar).subset hmem
    simp [hblank x hx, hname, hblank y hy] at hall
  rw [htrim, Signature.ofText?_eq hopen rfl, trim_trimStart, trim_append_blank _ hy,
    trim_blank_append hx, trim_append_blank _ hu, trim_blank_append hz]

theorem DirectiveEdit.alike {body body' : Text} (h : DirectiveEdit body body') (p p' : Position) :
    (Directive.mk body.trim p).Alike ⟨body'.trim, p'⟩ := by
  cases h with
  | @ends d w v w' v' hw hv hw' hv' =>
    refine .of_text ?_
    change Text.trim (w ++ d ++ v) = Text.trim (w' ++ d ++ v')
    rw [trim_append_blank _ hv, trim_append_blank _ hv', trim_blank_append hw,
      trim_blank_append hw']
  | @keyword k w x x' argument hw hx hx' hne hne' =>
    have hstart : ∀ x : Text, x.isBlank = true → x ≠ [] →
        x ++ argument = [] ∨ Text.startsBlank (x ++ argument) = true := by
      intro x hx hne
      exact .inr (by rw [startsBlank_append hne, startsBlank_of_isBlank hx hne])
    obtain ⟨hkey, hargument⟩ := read_trim k hw (hstart x hx hne) p
    obtain ⟨hkey', hargument'⟩ := read_trim k hw (hstart x' hx' hne') p'
    rw [trim_blank_append hx] at hargument
    rw [trim_blank_append hx'] at hargument'
    exact ⟨hkey.trans hkey'.symm, fun _ => hargument.trans hargument'.symm,
      by rw [hargument, hargument']⟩
  | @header w x name y y' z z' params u u' v hw hx hne hname hy hy' hz hz' hu hu' hv =>
    have hstart : ∀ t : Text, x ++ name ++ t = [] ∨ Text.startsBlank (x ++ name ++ t) = true := by
      intro t
      rw [List.append_assoc, startsBlank_append hne, startsBlank_of_isBlank hx hne]
      exact .inr rfl
    obtain ⟨hkey, hargument⟩ :=
      read_trim .templ hw (hstart (y ++ '(' :: (z ++ params ++ u ++ ')' :: v))) p
    obtain ⟨hkey', hargument'⟩ :=
      read_trim .templ hw (hstart (y' ++ '(' :: (z' ++ params ++ u' ++ ')' :: v))) p'
    simp only [← List.append_assoc] at hkey hargument hkey' hargument' ⊢
    refine ⟨hkey.trans hkey'.symm, fun h => absurd hkey h, ?_⟩
    rw [hargument, hargument', ofText?_argument hx hname hy hz hu hv,
      ofText?_argument hx hname hy' hz' hu' hv]

/-! ## Passages -/

inductive PassageEdit : Passage → Passage → Prop
  /-- A gap with its comment, or the text of a block. -/
  | before {c w v w' v' body : Text} : w.isBlank = true → v.isBlank = true → w'.isBlank = true →
      v'.isBlank = true → PassageEdit ⟨w ++ c ++ v, body⟩ ⟨w' ++ c ++ v', body⟩
  | directive {before body body' : Text} : DirectiveEdit body body' →
      PassageEdit ⟨before, body⟩ ⟨before, body'⟩
  | markup {before before' body : Text} : body.trim = Keyword.endtempl.spelling →
      EdgeEdit before before' → PassageEdit ⟨before, body⟩ ⟨before', body⟩

theorem PassageEdit.wellFormed {q q' : Passage} (h : PassageEdit q q') (hq : q.WellFormed) :
    q'.WellFormed := by
  have hloose := pattern_opensDirective.loose
  obtain ⟨hbefore, hbody⟩ := hq
  cases h with
  | before hw hv hw' hv' =>
    rw [hloose.append_blank hv, hloose.blank_append hw] at hbefore
    exact ⟨(hloose.append_blank hv').2 ((hloose.blank_append hw').2 hbefore), hbody⟩
  | directive hedit => exact ⟨hbefore, hedit.lacks hbody⟩
  | markup _ hedit => exact ⟨hedit.lacks pattern_opensDirective hbefore, hbody⟩

/-- What is read of two passages is the same. What stands before a directive is read as a comment,
unless the directive ends a block, and then it is read as markup. -/
structure Passage.Alike (q q' : Passage) : Prop where
  directive : ∀ p p', (q.directive p).Alike (q'.directive p')
  comment : ∀ p, (q.directive p).keyword? ≠ some .endtempl →
    (Gap.ofText q.before).comment = (Gap.ofText q'.before).comment
  lines : bodyLines q.before = bodyLines q'.before

theorem Passage.Alike.refl (q : Passage) : q.Alike q :=
  ⟨fun _ _ => .of_text rfl, fun _ _ => rfl, rfl⟩

theorem comment_ends {w v w' v' : Text} (hw : w.isBlank = true) (hv : v.isBlank = true)
    (hw' : w'.isBlank = true) (hv' : v'.isBlank = true) (c : Text) :
    (Gap.ofText (w ++ c ++ v)).comment = (Gap.ofText (w' ++ c ++ v')).comment := by
  rw [Gap.ofText, Gap.ofText]
  simp only [isBlank_append, hw, hv, hw', hv', Bool.true_and, Bool.and_true, trim_append_blank _ hv,
    trim_append_blank _ hv', trim_blank_append hw, trim_blank_append hw']

theorem PassageEdit.alike {q q' : Passage} (h : PassageEdit q q') : q.Alike q' := by
  cases h with
  | @before c w v w' v' body hw hv hw' hv' =>
    refine ⟨fun _ _ => .of_text rfl, fun _ _ => comment_ends hw hv hw' hv' c, ?_⟩
    rw [bodyLines_append_blank hv, bodyLines_append_blank hv', bodyLines_blank_append hw,
      bodyLines_blank_append hw']
  | directive hedit => exact ⟨fun p p' => hedit.alike _ _, fun _ _ => rfl, rfl⟩
  | @markup before before' body hbody hedit =>
    refine ⟨fun _ _ => .of_text rfl, fun p hkey => absurd ?_ hkey, (bodyLines_of_edgeEdit hedit).symm⟩
    have hword : Text.firstWord Keyword.endtempl.spelling = Keyword.endtempl.spelling := by decide
    rw [Passage.directive, Directive.keyword?, hbody, hword, Keyword.ofText?_spelling]

/-! ## Readings -/

/-- A declaration as it is written out. -/
inductive Printed where
  | importPath (text : Text)
  | templ (text : Text)

def Declaration.printed : Declaration → Printed
  | .importPath i => .importPath i.render
  | .templ t => .templ t.render

inductive Stage.Alike : Stage → Stage → Prop
  | preamble : Alike .preamble .preamble
  | top {package package' : Package} : package.render = package'.render →
      Alike (.top package) (.top package')
  | block {package package' : Package} {t t' : OpenTempl} : package.render = package'.render →
      t.signature = t'.signature → t.gap.comment = t'.gap.comment →
      Alike (.block package t .empty) (.block package' t' .empty)

namespace Reading

/-- What has been read so far is written out in the same way. -/
structure Alike (r r' : Reading) : Prop where
  stage : r.stage.Alike r'.stage
  declarations : r.declarations.map Declaration.printed = r'.declarations.map Declaration.printed
  gap : r'.gap = .empty

theorem Alike.refl_start : Alike start start := ⟨.preamble, rfl, rfl⟩

theorem Advances.exists_alike {p : Position} {q q' : Passage} {r r₁ r' : Reading}
    (h : Advances p q.before (q.directive p) r r₁) (hq : q.Alike q') (hr : r.Alike r')
    (p' : Position) :
    ∃ r₁', Advances p' q'.before (q'.directive p') r' r₁' ∧ r₁.Alike r₁' := by
  obtain ⟨hkeyword, hargument, hsignature⟩ := hq.directive p p'
  obtain ⟨hstage, hdeclarations, hgap⟩ := hr
  obtain ⟨stage', ds', gap', ws'⟩ := r'
  obtain rfl : gap' = .empty := hgap
  cases h with
  | package hkey hword =>
    cases hstage
    have hcomment := Gap.render_congr (hq.comment p (by simp [hkey]))
    have hsame := hargument (by simp [hkey])
    refine ⟨_, .package (hkeyword ▸ hkey) (hsame ▸ hword), .top ?_, hdeclarations, rfl⟩
    rw [Package.render, Package.render, hcomment, hsame]
  | importPath hkey hne =>
    cases hstage with
    | top hpackage =>
      have hcomment := Gap.render_congr (hq.comment p (by simp [hkey]))
      have hsame := hargument (by simp [hkey])
      refine ⟨_, .importPath (hkeyword ▸ hkey) (hsame ▸ hne), .top hpackage, ?_, rfl⟩
      rw [List.map_cons, List.map_cons, hdeclarations, Declaration.printed, Declaration.printed,
        Import.render, Import.render, hcomment, hsame]
  | templ hkey hs =>
    cases hstage with
    | top hpackage =>
      have hcomment := hq.comment p (by simp [hkey])
      exact ⟨_, .templ (hkeyword ▸ hkey) (hsignature ▸ hs), .block hpackage rfl hcomment,
        hdeclarations, rfl⟩
  | endtempl hkey hnil hread =>
    cases hstage with
    | block hpackage hsame hcomment =>
      have hnil' := hargument (by simp [hkey])
      have hlines := bodyLines_of_read hread
      rw [hq.lines] at hlines
      obtain ⟨f', ws', hread', hlayout⟩ := exists_read_of_bodyLines hlines p'
      refine ⟨_, .endtempl (hkeyword ▸ hkey) (hnil' ▸ hnil) hread', .top hpackage, ?_, rfl⟩
      rw [List.map_cons, List.map_cons, hdeclarations, Declaration.printed, Declaration.printed]
      simp only [Templ.render, Templ.rows, hsame, Gap.render_congr hcomment, hlayout]

theorem Runs.exists_alike {p : Position} {qs qs' : List Passage} {r r₁ r' : Reading}
    (h : Runs p qs r r₁) (hqs : List.Forall₂ Passage.Alike qs qs') (hr : r.Alike r')
    (p' : Position) :
    ∃ r₁', Runs p' qs' r' r₁' ∧ r₁.Alike r₁' := by
  induction h generalizing p' qs' r' with
  | nil =>
    cases hqs
    exact ⟨r', .nil, hr⟩
  | cons hadvances _ ih =>
    cases hqs with
    | cons hq hqs =>
      obtain ⟨r₂, hadvances', hr₂⟩ := hadvances.exists_alike hq hr p'
      obtain ⟨r₃, hruns, hr₃⟩ := ih hqs hr₂ _
      exact ⟨r₃, .cons hadvances' hruns, hr₃⟩

end Reading

/-! ## Documents -/

theorem Document.map_imports (d : Document) :
    d.imports.map Import.render = (d.declarations.map Declaration.printed).filterMap fun
      | .importPath text => some text
      | .templ _ => none := by
  rw [imports, List.map_filterMap, List.filterMap_map]
  congr 1
  funext x
  cases x <;> rfl

theorem Document.map_templates (d : Document) :
    d.templates.map Templ.render = (d.declarations.map Declaration.printed).filterMap fun
      | .importPath _ => none
      | .templ text => some text := by
  rw [templates, List.map_filterMap, List.filterMap_map]
  congr 1
  funext x
  cases x <;> rfl

theorem Document.render_eq_of_printed {d d' : Document}
    (hpackage : d.package.render = d'.package.render)
    (h : d.declarations.map Declaration.printed = d'.declarations.map Declaration.printed)
    (htrailing : d.trailing = d'.trailing) : d.render = d'.render := by
  refine render_congr hpackage ?_ ?_ htrailing
  · rw [map_imports, map_imports, h]
  · rw [map_templates, map_templates, h]

theorem format_passages_congr {qs qs' : List Passage} {u u' output : Text}
    (hqs : ∀ q ∈ qs, q.WellFormed) (hqs' : ∀ q ∈ qs', q.WellFormed)
    (hu : Lacks opensDirective u) (hu' : Lacks opensDirective u')
    (halike : List.Forall₂ Passage.Alike qs qs')
    (hlast : (Gap.ofText u).comment = (Gap.ofText u').comment)
    (h : format (qs.flatMap Passage.spell ++ u) = .ok output) :
    format (qs'.flatMap Passage.spell ++ u') = .ok output := by
  obtain ⟨d, hparse, rfl⟩ := exists_parse_of_format h
  obtain ⟨package, ds, ws, hruns, rfl⟩ := (parse_passages_eq_ok_iff hqs hu).1 hparse
  obtain ⟨r, hruns', hstage, hdeclarations, hgap⟩ :=
    hruns.exists_alike halike Reading.Alike.refl_start .start
  obtain ⟨stage, ds', gap, ws'⟩ := r
  obtain rfl : gap = .empty := hgap
  cases hstage with
  | @top _ package' hpackage =>
    have hparse' := (parse_passages_eq_ok_iff hqs' hu').2 ⟨package', ds', ws', hruns', rfl⟩
    rw [format, hparse']
    refine congrArg Except.ok (Document.render_eq_of_printed hpackage.symm ?_ hlast.symm)
    rw [List.map_reverse, List.map_reverse]
    exact congrArg List.reverse hdeclarations.symm

/-! ## Sources -/

/-- What stands behind the passage that is edited may be anything. -/
inductive Edit : Text → Text → Prop
  | passage {qs : List Passage} {q q' : Passage} {rest : Text} : (∀ x ∈ qs, x.WellFormed) →
      q.WellFormed → PassageEdit q q' →
      Edit (qs.flatMap Passage.spell ++ (q.spell ++ rest))
        (qs.flatMap Passage.spell ++ (q'.spell ++ rest))
  | last {qs : List Passage} {c w v w' v' : Text} : (∀ x ∈ qs, x.WellFormed) →
      Lacks opensDirective c → w.isBlank = true → v.isBlank = true → w'.isBlank = true →
      v'.isBlank = true →
      Edit (qs.flatMap Passage.spell ++ (w ++ c ++ v)) (qs.flatMap Passage.spell ++ (w' ++ c ++ v'))

theorem forall₂_alike_refl (qs : List Passage) : List.Forall₂ Passage.Alike qs qs :=
  List.forall₂_same.2 fun q _ => .refl q

theorem format_edit {source source' output : Text} (h : format source = .ok output)
    (hedit : Edit source source') : format source' = .ok output := by
  cases hedit with
  | @passage qs q q' rest hqs hq hedit =>
    have hcons : ∀ (x : Passage) (ys : List Passage) (u : Text),
        qs.flatMap Passage.spell ++ (x.spell ++ (ys.flatMap Passage.spell ++ u)) =
          (qs ++ x :: ys).flatMap Passage.spell ++ u := by
      intro x ys u
      simp
    -- As the source is read, what stands behind the passage is a row of passages too.
    obtain ⟨d, hparse, -⟩ := exists_parse_of_format h
    have hfront : ∀ x ∈ qs ++ [q], x.WellFormed := by
      simpa [or_imp, forall_and] using ⟨hqs, hq⟩
    obtain ⟨ys, u, hys, hu, rfl⟩ := exists_passages_of_parse_append hfront (by simpa using hparse)
    rw [hcons] at h ⊢
    have hall : ∀ x : Passage, x.WellFormed → ∀ y ∈ qs ++ x :: ys, y.WellFormed := by
      intro x hx y hy
      rcases List.mem_append.1 hy with hy | hy
      · exact hqs y hy
      · rcases List.mem_cons.1 hy with rfl | hy
        · exact hx
        · exact hys y hy
    refine format_passages_congr (hall q hq) (hall q' (hedit.wellFormed hq)) hu hu ?_ rfl h
    exact List.rel_append (forall₂_alike_refl qs) (.cons hedit.alike (forall₂_alike_refl ys))
  | @last qs c w v w' v' hqs hc hw hv hw' hv' =>
    have hloose := pattern_opensDirective.loose
    exact format_passages_congr hqs hqs
      ((hloose.append_blank hv).2 ((hloose.blank_append hw).2 hc))
      ((hloose.append_blank hv').2 ((hloose.blank_append hw').2 hc)) (forall₂_alike_refl qs)
      (comment_ends hw hv hw' hv' c) h

theorem format_edits {source source' output : Text} (h : format source = .ok output)
    (hedits : Relation.ReflTransGen Edit source source') : format source' = .ok output := by
  induction hedits with
  | refl => exact h
  | tail _ hedit ih => exact format_edit ih hedit

/-- A package, and a block with a header and a body. -/
def listing (package header body last : Text) : Text :=
  Passage.spell ⟨[], package⟩ ++ (Passage.spell ⟨[], header⟩ ++
    (Passage.spell ⟨body, " endtempl ".toList⟩ ++ last))

def narrow : Text :=
  listing "package p".toList "templ t(x)".toList "<ul> <li>a</li> </ul>".toList []

def wide : Text :=
  listing "package\n\tp".toList "templ t ( x)".toList "<ul>\n\n<li>a</li> </ul>".toList ['\n']

def listed : Text :=
  Directive.spell "package p".toList ++ "\n\n".toList ++ Directive.spell "templ t(x)".toList ++
    "\n\t<ul>\n\t\t<li>a</li>\n\t</ul>\n".toList ++ Directive.spell "endtempl".toList ++
    "\n\n".toList

/-- The text in front of the item is the first child of a list that is alone on its line. -/
theorem edgeEdit_list :
    EdgeEdit "<ul> <li>a</li> </ul>".toList "<ul>\n\n<li>a</li> </ul>".toList := by
  have hvalue : (Forest.read .start "<ul> <li>a</li> </ul>".toList).toOption.map
      (fun found => Node.unplacedAll found.1) =
      some [Node.element ⟨"ul".toList, [], false⟩ ()
        [.text [' '], .element ⟨"li".toList, [], false⟩ () [.text ['a']], .text [' ']]] := by
    decide +kernel
  obtain ⟨⟨f, ws⟩, hread, hf⟩ := exists_of_map_toOption hvalue
  have hin : InLines 0 (Node.unplacedAll f) := by
    rw [hf]
    exact @InLines.block [] _ [] _ 0 (.inl rfl) (by decide) (@InLines.text [] _ _) (.inl rfl)
  have hrespaced : Respaced [' '] ['\n', '\n'] :=
    @Respaced.intro [] [' '] [] ['\n', '\n'] [] rfl rfl rfl rfl (by simp) (by simp)
  have hul : Chunk.WellFormed ⟨[], ['u', 'l']⟩ :=
    ⟨pattern_startsTag.lacks_nil, by decide, by simp [Shut, quoteAfter]⟩
  exact @EdgeEdit.intro [⟨[], ['u', 'l']⟩] [' '] ['\n', '\n'] "<li>a</li> </ul>".toList .start f ws
    (by simpa using hul) (pattern_startsTag.lacks_of_isBlank rfl) (by simp) (.inr (by decide))
    hread hin hrespaced

theorem edits_narrow_wide : Relation.ReflTransGen Edit narrow wide := by
  have hplain : ∀ before body : Text, '\x7b' ∉ before → '%' ∉ body →
      Passage.WellFormed ⟨before, body⟩ := fun before body hbefore hbody =>
    ⟨pattern_opensDirective.lacks_of_not_mem hbefore,
      pattern_closesDirective.lacks_of_not_mem hbody⟩
  have hpackage : DirectiveEdit "package p".toList "package\n\tp".toList :=
    @DirectiveEdit.keyword .package [] [' '] ['\n', '\t'] ['p'] rfl rfl rfl (by simp) (by simp)
  have hheader : DirectiveEdit "templ t(x)".toList "templ t ( x)".toList :=
    @DirectiveEdit.header [] [' '] ['t'] [] [' '] [] [' '] ['x'] [] [] [] rfl rfl (by simp)
      (by decide) rfl rfl rfl rfl rfl rfl rfl
  have hbody : PassageEdit ⟨"<ul> <li>a</li> </ul>".toList, " endtempl ".toList⟩
      ⟨"<ul>\n\n<li>a</li> </ul>".toList, " endtempl ".toList⟩ :=
    .markup (by decide) edgeEdit_list
  have hfirst : Passage.WellFormed ⟨[], "package\n\tp".toList⟩ :=
    hplain _ _ (by decide) (by decide)
  have hsecond : Passage.WellFormed ⟨[], "templ t ( x)".toList⟩ :=
    hplain _ _ (by decide) (by decide)
  have hthird : Passage.WellFormed ⟨"<ul>\n\n<li>a</li> </ul>".toList, " endtempl ".toList⟩ :=
    hplain _ _ (by decide) (by decide)
  refine .head (@Edit.passage [] _ _ _ (by simp) (hplain _ _ (by decide) (by decide))
    (@PassageEdit.directive [] _ _ hpackage)) ?_
  refine .head (@Edit.passage [_] _ _ _ (by simpa using hfirst)
    (hplain _ _ (by decide) (by decide)) (@PassageEdit.directive [] _ _ hheader)) ?_
  refine .head (@Edit.passage [_, _] _ _ _ (by simpa using ⟨hfirst, hsecond⟩)
    (hplain _ _ (by decide) (by decide)) hbody) ?_
  exact .single (@Edit.last [_, _, _] [] [] [] [] ['\n']
    (by simpa using ⟨hfirst, hsecond, hthird⟩) pattern_opensDirective.lacks_nil rfl rfl rfl rfl)

theorem format_edits_narrow :
    format narrow = .ok listed ∧ Relation.ReflTransGen Edit narrow wide ∧
      format wide = .ok listed := by
  have hvalue : (format narrow).toOption.map id = some listed := by decide +kernel
  obtain ⟨output, hformat, rfl⟩ := exists_of_map_toOption hvalue
  exact ⟨hformat, edits_narrow_wide, format_edits hformat edits_narrow_wide⟩

end TemplLayout
