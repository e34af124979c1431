import FeatureLines.Bundled.Language

/-!
# Bundled languages from ga to jv
-/

namespace FeatureLines

def bundledGToJ : List BundledLanguage := [
  { code := "ga"
    name := "Irish"
    native := "Gaeilge"
    feature := ["Gné"]
    background := ["Cúlra"]
    rule := ["Rule"]
    scenario := ["Sampla", "Cás"]
    scenarioOutline := ["Cás Achomair"]
    examples := ["Samplaí"]
    givenStep := ["* ", "Cuir i gcás go", "Cuir i gcás nach", "Cuir i gcás gur",
      "Cuir i gcás nár"]
    whenStep := ["* ", "Nuair a", "Nuair nach", "Nuair ba", "Nuair nár"]
    thenStep := ["* ", "Ansin"]
    andStep := ["* ", "Agus"]
    butStep := ["* ", "Ach"] },
  { code := "gj"
    name := "Gujarati"
    native := "ગુજરાતી"
    feature := ["લક્ષણ", "વ્યાપાર જરૂર", "ક્ષમતા"]
    background := ["બેકગ્રાઉન્ડ"]
    rule := ["Rule"]
    scenario := ["ઉદાહરણ", "સ્થિતિ"]
    scenarioOutline := ["પરિદ્દશ્ય રૂપરેખા", "પરિદ્દશ્ય ઢાંચો"]
    examples := ["ઉદાહરણો"]
    givenStep := ["* ", "આપેલ છે "]
    whenStep := ["* ", "ક્યારે "]
    thenStep := ["* ", "પછી "]
    andStep := ["* ", "અને "]
    butStep := ["* ", "પણ "] },
  { code := "gl"
    name := "Galician"
    native := "galego"
    feature := ["Característica"]
    background := ["Contexto"]
    rule := ["Rule"]
    scenario := ["Exemplo", "Escenario"]
    scenarioOutline := ["Esbozo do escenario"]
    examples := ["Exemplos"]
    givenStep := ["* ", "Dado ", "Dada ", "Dados ", "Dadas "]
    whenStep := ["* ", "Cando "]
    thenStep := ["* ", "Entón ", "Logo "]
    andStep := ["* ", "E "]
    butStep := ["* ", "Mais ", "Pero "] },
  { code := "he"
    name := "Hebrew"
    native := "עברית"
    feature := ["תכונה"]
    background := ["רקע"]
    rule := ["כלל"]
    scenario := ["דוגמא", "תרחיש"]
    scenarioOutline := ["תבנית תרחיש"]
    examples := ["דוגמאות"]
    givenStep := ["* ", "בהינתן "]
    whenStep := ["* ", "כאשר "]
    thenStep := ["* ", "אז ", "אזי "]
    andStep := ["* ", "וגם "]
    butStep := ["* ", "אבל "] },
  { code := "hi"
    name := "Hindi"
    native := "हिंदी"
    feature := ["रूप लेख"]
    background := ["पृष्ठभूमि"]
    rule := ["नियम"]
    scenario := ["परिदृश्य"]
    scenarioOutline := ["परिदृश्य रूपरेखा"]
    examples := ["उदाहरण"]
    givenStep := ["* ", "अगर ", "यदि ", "चूंकि "]
    whenStep := ["* ", "जब ", "कदा "]
    thenStep := ["* ", "तब ", "तदा "]
    andStep := ["* ", "और ", "तथा "]
    butStep := ["* ", "पर ", "परन्तु ", "किन्तु "] },
  { code := "hr"
    name := "Croatian"
    native := "hrvatski"
    feature := ["Osobina", "Mogućnost", "Mogucnost"]
    background := ["Pozadina"]
    rule := ["Rule"]
    scenario := ["Primjer", "Scenarij"]
    scenarioOutline := ["Skica", "Koncept"]
    examples := ["Primjeri", "Scenariji"]
    givenStep := ["* ", "Zadan ", "Zadani ", "Zadano ", "Ukoliko "]
    whenStep := ["* ", "Kada ", "Kad "]
    thenStep := ["* ", "Onda "]
    andStep := ["* ", "I "]
    butStep := ["* ", "Ali "] },
  { code := "ht"
    name := "Creole"
    native := "kreyòl"
    feature := ["Karakteristik", "Mak", "Fonksyonalite"]
    background := ["Kontèks", "Istorik"]
    rule := ["Rule"]
    scenario := ["Senaryo"]
    scenarioOutline := ["Plan senaryo", "Plan Senaryo", "Senaryo deskripsyon",
      "Senaryo Deskripsyon", "Dyagram senaryo", "Dyagram Senaryo"]
    examples := ["Egzanp"]
    givenStep := ["* ", "Sipoze ", "Sipoze ke ", "Sipoze Ke "]
    whenStep := ["* ", "Lè ", "Le "]
    thenStep := ["* ", "Lè sa a ", "Le sa a "]
    andStep := ["* ", "Ak ", "Epi ", "E "]
    butStep := ["* ", "Men "] },
  { code := "hu"
    name := "Hungarian"
    native := "magyar"
    feature := ["Jellemző"]
    background := ["Háttér"]
    rule := ["Szabály"]
    scenario := ["Példa", "Forgatókönyv"]
    scenarioOutline := ["Forgatókönyv vázlat"]
    examples := ["Példák"]
    givenStep := ["* ", "Amennyiben ", "Adott "]
    whenStep := ["* ", "Majd ", "Ha ", "Amikor "]
    thenStep := ["* ", "Akkor "]
    andStep := ["* ", "És "]
    butStep := ["* ", "De "] },
  { code := "id"
    name := "Indonesian"
    native := "Bahasa Indonesia"
    feature := ["Fitur"]
    background := ["Dasar", "Latar Belakang"]
    rule := ["Rule", "Aturan"]
    scenario := ["Skenario"]
    scenarioOutline := ["Skenario konsep", "Garis-Besar Skenario"]
    examples := ["Contoh", "Misal"]
    givenStep := ["* ", "Dengan ", "Diketahui ", "Diasumsikan ", "Bila ", "Jika "]
    whenStep := ["* ", "Ketika "]
    thenStep := ["* ", "Maka ", "Kemudian "]
    andStep := ["* ", "Dan "]
    butStep := ["* ", "Tapi ", "Tetapi "] },
  { code := "is"
    name := "Icelandic"
    native := "Íslenska"
    feature := ["Eiginleiki"]
    background := ["Bakgrunnur"]
    rule := ["Rule"]
    scenario := ["Atburðarás"]
    scenarioOutline := ["Lýsing Atburðarásar", "Lýsing Dæma"]
    examples := ["Dæmi", "Atburðarásir"]
    givenStep := ["* ", "Ef "]
    whenStep := ["* ", "Þegar "]
    thenStep := ["* ", "Þá "]
    andStep := ["* ", "Og "]
    butStep := ["* ", "En "] },
  { code := "it"
    name := "Italian"
    native := "italiano"
    feature := ["Funzionalità", "Esigenza di Business", "Abilità"]
    background := ["Contesto"]
    rule := ["Regola"]
    scenario := ["Esempio", "Scenario"]
    scenarioOutline := ["Schema dello scenario"]
    examples := ["Esempi"]
    givenStep := ["* ", "Dato ", "Data ", "Dati ", "Date "]
    whenStep := ["* ", "Quando "]
    thenStep := ["* ", "Allora "]
    andStep := ["* ", "E "]
    butStep := ["* ", "Ma "] },
  { code := "ja"
    name := "Japanese"
    native := "日本語"
    feature := ["フィーチャ", "機能"]
    background := ["背景"]
    rule := ["ルール"]
    scenario := ["シナリオ"]
    scenarioOutline := ["シナリオアウトライン", "シナリオテンプレート", "テンプレ", "シナリオテンプレ"]
    examples := ["例", "サンプル"]
    givenStep := ["* ", "前提"]
    whenStep := ["* ", "もし"]
    thenStep := ["* ", "ならば"]
    andStep := ["* ", "且つ", "かつ"]
    butStep := ["* ", "然し", "しかし", "但し", "ただし"] },
  { code := "jv"
    name := "Javanese"
    native := "Basa Jawa"
    feature := ["Fitur"]
    background := ["Dasar"]
    rule := ["Rule"]
    scenario := ["Skenario"]
    scenarioOutline := ["Konsep skenario"]
    examples := ["Conto", "Contone"]
    givenStep := ["* ", "Nalika ", "Nalikaning "]
    whenStep := ["* ", "Manawa ", "Menawa "]
    thenStep := ["* ", "Njuk ", "Banjur "]
    andStep := ["* ", "Lan "]
    butStep := ["* ", "Tapi ", "Nanging ", "Ananging "] }]

end FeatureLines
