import PrettyPayload.Html.Token
import PrettyPayload.Text.Path

/-!
# Element names of HTML

The sets of element names that the construction of a tree asks about, the names that foreign
content spells with capitals, and the public identifiers of old pages. A name belongs to one of
three name spaces; the sets hold names of the HTML name space only, apart from the integration
points, at which foreign content may hold HTML again.
-/

namespace PrettyPayload

namespace Html

inductive Space where
  | html
  | svg
  | mathml
  deriving DecidableEq, Repr

structure Name where
  space : Space
  localName : String
  deriving DecidableEq, Repr

def htmlName (name : String) : Name := ⟨.html, name⟩

abbrev NameSet := Name → Bool

def NameSet.ofHtml (names : List String) : NameSet := fun n =>
  n.space = .html && names.contains n.localName

/-! ## Integration points -/

/-- The MathML elements whose text is HTML text. -/
def isMathTextPoint (n : Name) : Bool :=
  n.space = .mathml && ["mi", "mo", "mn", "ms", "mtext"].contains n.localName

def isSvgHtmlPoint (n : Name) : Bool :=
  n.space = .svg && ["foreignObject", "desc", "title"].contains n.localName

/-! ## Scopes and implied end tags -/

/-- What closes off the search for an open element. -/
def defaultScope : NameSet := fun n =>
  NameSet.ofHtml ["applet", "caption", "html", "table", "td", "th", "marquee", "object",
    "template"] n || isMathTextPoint n || isSvgHtmlPoint n

def listItemScope : NameSet := fun n => defaultScope n || NameSet.ofHtml ["ol", "ul"] n

def buttonScope : NameSet := fun n => defaultScope n || NameSet.ofHtml ["button"] n

def tableScope : NameSet := NameSet.ofHtml ["html", "table", "template"]

def selectScope : NameSet := fun n => !NameSet.ofHtml ["optgroup", "option"] n

/-- The elements whose end tags may be left out. -/
def impliedEnd : NameSet :=
  NameSet.ofHtml ["dd", "dt", "li", "option", "optgroup", "p", "rb", "rp", "rt", "rtc"]

def thoroughImpliedEnd : NameSet := fun n =>
  impliedEnd n || NameSet.ofHtml ["caption", "colgroup", "tbody", "td", "tfoot", "th", "thead",
    "tr"] n

def headings : List String := ["h1", "h2", "h3", "h4", "h5", "h6"]

/-- The elements that stop the closing of an unknown element. -/
def isSpecial : NameSet :=
  NameSet.ofHtml ["address", "applet", "area", "article", "aside", "base", "basefont", "bgsound",
    "blockquote", "body", "br", "button", "caption", "center", "col", "colgroup", "dd", "details",
    "dir", "div", "dl", "dt", "embed", "fieldset", "figcaption", "figure", "footer", "form",
    "frame", "frameset", "h1", "h2", "h3", "h4", "h5", "h6", "head", "header", "hgroup", "hr",
    "html", "iframe", "img", "input", "isindex", "li", "link", "listing", "main", "marquee",
    "menu", "meta", "nav", "noembed", "noframes", "noscript", "object", "ol", "p", "param",
    "plaintext", "pre", "script", "section", "select", "source", "style", "summary", "table",
    "tbody", "td", "template", "textarea", "tfoot", "th", "thead", "title", "tr", "track", "ul",
    "wbr", "xmp"]

/-! ## Start tags by treatment -/

/-- The elements that close an open paragraph and hold blocks. -/
def blockTags : List String :=
  ["address", "article", "aside", "blockquote", "center", "details", "dialog", "dir", "div", "dl",
    "fieldset", "figcaption", "figure", "footer", "header", "hgroup", "main", "menu", "nav", "ol",
    "p", "section", "summary", "ul"]

def closingBlockTags : List String :=
  ["address", "article", "aside", "blockquote", "button", "center", "details", "dialog", "dir",
    "div", "dl", "fieldset", "figcaption", "figure", "footer", "header", "hgroup", "listing",
    "main", "menu", "nav", "ol", "pre", "section", "summary", "ul"]

/-- The formatting elements, which are opened again where a block cut them off; links and
unbreakable text have rules of their own on top. -/
def formattingTags : List String :=
  ["b", "big", "code", "em", "font", "i", "s", "small", "strike", "strong", "tt", "u"]

def headTags : List String :=
  ["base", "basefont", "bgsound", "link", "meta", "noframes", "script", "style", "template",
    "title"]

/-- The start tags that end foreign content. -/
def breakoutTags : List String :=
  ["b", "big", "blockquote", "body", "br", "center", "code", "dd", "div", "dl", "dt", "em",
    "embed", "h1", "h2", "h3", "h4", "h5", "h6", "head", "hr", "i", "img", "li", "listing", "menu",
    "meta", "nobr", "ol", "p", "pre", "ruby", "s", "small", "span", "strong", "strike", "sub",
    "sup", "table", "tt", "u", "ul", "var"]

/-! ## Names of foreign content -/

def svgElementNames : List String :=
  ["altGlyph", "altGlyphDef", "altGlyphItem", "animateColor", "animateMotion", "animateTransform",
    "clipPath", "feBlend", "feColorMatrix", "feComponentTransfer", "feComposite",
    "feConvolveMatrix", "feDiffuseLighting", "feDisplacementMap", "feDistantLight",
    "feDropShadow", "feFlood", "feFuncA", "feFuncB", "feFuncG", "feFuncR", "feGaussianBlur",
    "feImage", "feMerge", "feMergeNode", "feMorphology", "feOffset", "fePointLight",
    "feSpecularLighting", "feSpotLight", "feTile", "feTurbulence", "foreignObject", "glyphRef",
    "linearGradient", "radialGradient", "textPath"]

def svgAttributeNames : List String :=
  ["attributeName", "attributeType", "baseFrequency", "baseProfile", "calcMode", "clipPathUnits",
    "diffuseConstant", "edgeMode", "filterUnits", "glyphRef", "gradientTransform",
    "gradientUnits", "kernelMatrix", "kernelUnitLength", "keyPoints", "keySplines", "keyTimes",
    "lengthAdjust", "limitingConeAngle", "markerHeight", "markerUnits", "markerWidth",
    "maskContentUnits", "maskUnits", "numOctaves", "pathLength", "patternContentUnits",
    "patternTransform", "patternUnits", "pointsAtX", "pointsAtY", "pointsAtZ", "preserveAlpha",
    "preserveAspectRatio", "primitiveUnits", "refX", "refY", "repeatCount", "repeatDur",
    "requiredExtensions", "requiredFeatures", "specularConstant", "specularExponent",
    "spreadMethod", "startOffset", "stdDeviation", "stitchTiles", "surfaceScale",
    "systemLanguage", "tableValues", "targetX", "targetY", "textLength", "viewBox", "viewTarget",
    "xChannelSelector", "yChannelSelector", "zoomAndPan"]

def respell (names : List String) (name : String) : String :=
  (names.find? fun spelled => Text.lower spelled.toList = name.toList).getD name

/-- The name under which an attribute of a foreign element is kept. The declaration of the default
name space gets an empty prefix. -/
def foreignAttributeName (space : Space) (name : String) : String :=
  if name = "xmlns" then ":xmlns"
  else
    match space with
    | .svg => respell svgAttributeNames name
    | .mathml => respell ["definitionURL"] name
    | .html => name

def foreignAttributes (space : Space) (tag : Tag) : Tag :=
  { tag with
    attributes := tag.attributes.map fun (name, value) => (foreignAttributeName space name, value) }

/-! ## Old pages -/

def oldPublicStarts : List String :=
  ["-//advasoft ltd//dtd html 3.0 aswedit + extensions//",
    "-//as//dtd html 3.0 aswedit + extensions//", "-//ietf//dtd html 2.0 level 1//",
    "-//ietf//dtd html 2.0 level 2//", "-//ietf//dtd html 2.0 strict level 1//",
    "-//ietf//dtd html 2.0 strict level 2//", "-//ietf//dtd html 2.0 strict//",
    "-//ietf//dtd html 2.0//", "-//ietf//dtd html 2.1e//", "-//ietf//dtd html 3.0//",
    "-//ietf//dtd html 3.2 final//", "-//ietf//dtd html 3.2//", "-//ietf//dtd html 3//",
    "-//ietf//dtd html level 0//", "-//ietf//dtd html level 1//", "-//ietf//dtd html level 2//",
    "-//ietf//dtd html level 3//", "-//ietf//dtd html strict level 0//",
    "-//ietf//dtd html strict level 1//", "-//ietf//dtd html strict level 2//",
    "-//ietf//dtd html strict level 3//", "-//ietf//dtd html strict//", "-//ietf//dtd html//",
    "-//metrius//dtd metrius presentational//",
    "-//microsoft//dtd internet explorer 2.0 html strict//",
    "-//microsoft//dtd internet explorer 2.0 html//",
    "-//microsoft//dtd internet explorer 2.0 tables//",
    "-//microsoft//dtd internet explorer 3.0 html strict//",
    "-//microsoft//dtd internet explorer 3.0 html//",
    "-//microsoft//dtd internet explorer 3.0 tables//", "-//netscape comm. corp.//dtd html//",
    "-//netscape comm. corp.//dtd strict html//", "-//o'reilly and associates//dtd html 2.0//",
    "-//o'reilly and associates//dtd html extended 1.0//",
    "-//o'reilly and associates//dtd html extended relaxed 1.0//",
    "-//softquad software//dtd hotmetal pro 6.0::19990601::extensions to html 4.0//",
    "-//softquad//dtd hotmetal pro 4.0::19971010::extensions to html 4.0//",
    "-//spyglass//dtd html 2.0 extended//", "-//sq//dtd html 2.0 hotmetal + extensions//",
    "-//sun microsystems corp.//dtd hotjava html//",
    "-//sun microsystems corp.//dtd hotjava strict html//", "-//w3c//dtd html 3 1995-03-24//",
    "-//w3c//dtd html 3.2 draft//", "-//w3c//dtd html 3.2 final//", "-//w3c//dtd html 3.2//",
    "-//w3c//dtd html 3.2s draft//", "-//w3c//dtd html 4.0 frameset//",
    "-//w3c//dtd html 4.0 transitional//", "-//w3c//dtd html experimental 19960712//",
    "-//w3c//dtd html experimental 970421//", "-//w3c//dtd w3 html//",
    "-//w3o//dtd w3 html 3.0//", "-//webtechs//dtd mozilla html 2.0//",
    "-//webtechs//dtd mozilla html//"]

/-- The public identifiers that mark an old page as a whole. -/
def oldPublicIds : List String :=
  ["-//w3o//dtd w3 html strict 3.0//en//", "-/w3c/dtd html 4.0 transitional/en", "html"]

def oldSystemId : Text :=
  Text.address "www.ibm.com" "data/dtd/v11/ibmxhtml1-transitional.dtd"

/-- The starts of public identifiers that mark an old page where no system identifier stands. -/
def oldAloneStarts : List String :=
  ["-//w3c//dtd html 4.01 frameset//", "-//w3c//dtd html 4.01 transitional//"]

/-- Whether a page with this document type is an old one, whose tables stay inside paragraphs. -/
def Doctype.marksOldPage (d : Doctype) : Bool :=
  let publicId := d.publicId.map Text.lower
  let isPublic (p : String → Text → Bool) (ids : List String) : Bool :=
    publicId.any fun id => ids.any fun known => p known id
  let isStart (known : String) (id : Text) : Bool := known.toList.isPrefixOf id
  d.broken || d.name ≠ some "html".toList ||
    isPublic (fun known id => known.toList = id) oldPublicIds ||
    d.systemId.map Text.lower = some oldSystemId ||
    isPublic isStart oldPublicStarts ||
    (d.systemId.isNone && isPublic isStart oldAloneStarts)

end Html

end PrettyPayload
