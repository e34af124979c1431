import FeatureLines.Bundled.AToD
import FeatureLines.Bundled.EToF
import FeatureLines.Bundled.GToJ
import FeatureLines.Bundled.KToN
import FeatureLines.Bundled.OToS
import FeatureLines.Bundled.TToZ

/-!
# The bundled lexicon

The languages that come with the library, as one lexicon.
-/

namespace FeatureLines

def bundledLanguages : List BundledLanguage :=
  bundledAToD ++ bundledEToF ++ bundledGToJ ++ bundledKToN ++ bundledOToS ++ bundledTToZ

/-- The lexicon that comes with the library. -/
def bundledLexicon : Lexicon :=
  TextMap.ofList (bundledLanguages.map fun language =>
    (language.code.toList, language.vocabulary))

end FeatureLines
