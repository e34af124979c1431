import FeatureLines.Bundled.Language

/-!
# Bundled languages from el to fr
-/

namespace FeatureLines

def bundledEToF : List BundledLanguage := [
  { code := "el"
    name := "Greek"
    native := "Ελληνικά"
    feature := ["Δυνατότητα", "Λειτουργία"]
    background := ["Υπόβαθρο"]
    rule := ["Rule"]
    scenario := ["Παράδειγμα", "Σενάριο"]
    scenarioOutline := ["Περιγραφή Σεναρίου", "Περίγραμμα Σεναρίου"]
    examples := ["Παραδείγματα", "Σενάρια"]
    givenStep := ["* ", "Δεδομένου "]
    whenStep := ["* ", "Όταν "]
    thenStep := ["* ", "Τότε "]
    andStep := ["* ", "Και "]
    butStep := ["* ", "Αλλά "] },
  { code := "em"
    name := "Emoji"
    native := "😀"
    feature := ["📚"]
    background := ["💤"]
    rule := ["Rule"]
    scenario := ["🥒", "📕"]
    scenarioOutline := ["📖"]
    examples := ["📓"]
    givenStep := ["* ", "😐"]
    whenStep := ["* ", "🎬"]
    thenStep := ["* ", "🙏"]
    andStep := ["* ", "😂"]
    butStep := ["* ", "😔"] },
  { code := "en"
    name := "English"
    native := "English"
    feature := ["Feature", "Business Need", "Ability"]
    background := ["Background"]
    rule := ["Rule"]
    scenario := ["Example", "Scenario"]
    scenarioOutline := ["Scenario Outline", "Scenario Template"]
    examples := ["Examples", "Scenarios"]
    givenStep := ["* ", "Given "]
    whenStep := ["* ", "When "]
    thenStep := ["* ", "Then "]
    andStep := ["* ", "And "]
    butStep := ["* ", "But "] },
  { code := "en-Scouse"
    name := "Scouse"
    native := "Scouse"
    feature := ["Feature"]
    background := ["Dis is what went down"]
    rule := ["Rule"]
    scenario := ["The thing of it is"]
    scenarioOutline := ["Wharrimean is"]
    examples := ["Examples"]
    givenStep := ["* ", "Givun ", "Youse know when youse got "]
    whenStep := ["* ", "Youse know like when "]
    thenStep := ["* ", "Dun ", "Den youse gotta "]
    andStep := ["* ", "An "]
    butStep := ["* ", "Buh "] },
  { code := "en-au"
    name := "Australian"
    native := "Australian"
    feature := ["Pretty much"]
    background := ["First off"]
    rule := ["Rule"]
    scenario := ["Awww, look mate"]
    scenarioOutline := ["Reckon it's like"]
    examples := ["You'll wanna"]
    givenStep := ["* ", "Y'know "]
    whenStep := ["* ", "It's just unbelievable "]
    thenStep := ["* ", "But at the end of the day I reckon "]
    andStep := ["* ", "Too right "]
    butStep := ["* ", "Yeah nah "] },
  { code := "en-lol"
    name := "LOLCAT"
    native := "LOLCAT"
    feature := ["OH HAI"]
    background := ["B4"]
    rule := ["Rule"]
    scenario := ["MISHUN"]
    scenarioOutline := ["MISHUN SRSLY"]
    examples := ["EXAMPLZ"]
    givenStep := ["* ", "I CAN HAZ "]
    whenStep := ["* ", "WEN "]
    thenStep := ["* ", "DEN "]
    andStep := ["* ", "AN "]
    butStep := ["* ", "BUT "] },
  { code := "en-old"
    name := "Old English"
    native := "Englisc"
    feature := ["Hwaet", "Hwæt"]
    background := ["Aer", "Ær"]
    rule := ["Rule"]
    scenario := ["Swa"]
    scenarioOutline := ["Swa hwaer swa", "Swa hwær swa"]
    examples := ["Se the", "Se þe", "Se ðe"]
    givenStep := ["* ", "Thurh ", "Þurh ", "Ðurh "]
    whenStep := ["* ", "Bæþsealf ", "Bæþsealfa ", "Bæþsealfe ", "Ciricæw ", "Ciricæwe ",
      "Ciricæwa "]
    thenStep := ["* ", "Tha ", "Þa ", "Ða ", "Tha the ", "Þa þe ", "Ða ðe "]
    andStep := ["* ", "Ond ", "7 "]
    butStep := ["* ", "Ac "] },
  { code := "en-pirate"
    name := "Pirate"
    native := "Pirate"
    feature := ["Ahoy matey!"]
    background := ["Yo-ho-ho"]
    rule := ["Rule"]
    scenario := ["Heave to"]
    scenarioOutline := ["Shiver me timbers"]
    examples := ["Dead men tell no tales"]
    givenStep := ["* ", "Gangway! "]
    whenStep := ["* ", "Blimey! "]
    thenStep := ["* ", "Let go and haul "]
    andStep := ["* ", "Aye "]
    butStep := ["* ", "Avast! "] },
  { code := "en-tx"
    name := "Texas"
    native := "Texas"
    feature := ["This ain’t my first rodeo", "All gussied up"]
    background := ["Lemme tell y'all a story"]
    rule := ["Rule "]
    scenario := ["All hat and no cattle"]
    scenarioOutline := ["Serious as a snake bite", "Busy as a hound in flea season"]
    examples := ["Now that's a story longer than a cattle drive in July"]
    givenStep := ["* ", "Fixin' to ", "All git out "]
    whenStep := ["* ", "Quick out of the chute "]
    thenStep := ["* ", "There’s no tree but bears some fruit "]
    andStep := ["* ", "Come hell or high water "]
    butStep := ["* ", "Well now hold on, I'll you what "] },
  { code := "eo"
    name := "Esperanto"
    native := "Esperanto"
    feature := ["Trajto"]
    background := ["Fono"]
    rule := ["Regulo"]
    scenario := ["Ekzemplo", "Scenaro", "Kazo"]
    scenarioOutline := ["Konturo de la scenaro", "Skizo", "Kazo-skizo"]
    examples := ["Ekzemploj"]
    givenStep := ["* ", "Donitaĵo ", "Komence "]
    whenStep := ["* ", "Se "]
    thenStep := ["* ", "Do "]
    andStep := ["* ", "Kaj "]
    butStep := ["* ", "Sed "] },
  { code := "es"
    name := "Spanish"
    native := "español"
    feature := ["Característica", "Necesidad del negocio", "Requisito"]
    background := ["Antecedentes"]
    rule := ["Regla", "Regla de negocio"]
    scenario := ["Ejemplo", "Escenario"]
    scenarioOutline := ["Esquema del escenario"]
    examples := ["Ejemplos"]
    givenStep := ["* ", "Dado ", "Dada ", "Dados ", "Dadas "]
    whenStep := ["* ", "Cuando "]
    thenStep := ["* ", "Entonces "]
    andStep := ["* ", "Y ", "E "]
    butStep := ["* ", "Pero "] },
  { code := "et"
    name := "Estonian"
    native := "eesti keel"
    feature := ["Omadus"]
    background := ["Taust"]
    rule := ["Reegel"]
    scenario := ["Juhtum", "Stsenaarium"]
    scenarioOutline := ["Raamjuhtum", "Raamstsenaarium"]
    examples := ["Juhtumid"]
    givenStep := ["* ", "Eeldades "]
    whenStep := ["* ", "Kui "]
    thenStep := ["* ", "Siis "]
    andStep := ["* ", "Ja "]
    butStep := ["* ", "Kuid "] },
  { code := "fa"
    name := "Persian"
    native := "فارسی"
    feature := ["وِیژگی"]
    background := ["زمینه"]
    rule := ["Rule"]
    scenario := ["مثال", "سناریو"]
    scenarioOutline := ["الگوی سناریو"]
    examples := ["نمونه ها"]
    givenStep := ["* ", "با فرض "]
    whenStep := ["* ", "هنگامی "]
    thenStep := ["* ", "آنگاه "]
    andStep := ["* ", "و "]
    butStep := ["* ", "اما "] },
  { code := "fi"
    name := "Finnish"
    native := "suomi"
    feature := ["Ominaisuus"]
    background := ["Tausta"]
    rule := ["Rule"]
    scenario := ["Tapaus"]
    scenarioOutline := ["Tapausaihio"]
    examples := ["Tapaukset"]
    givenStep := ["* ", "Oletetaan "]
    whenStep := ["* ", "Kun "]
    thenStep := ["* ", "Niin "]
    andStep := ["* ", "Ja "]
    butStep := ["* ", "Mutta "] },
  { code := "fr"
    name := "French"
    native := "français"
    feature := ["Fonctionnalité"]
    background := ["Contexte"]
    rule := ["Règle"]
    scenario := ["Exemple", "Scénario"]
    scenarioOutline := ["Plan du scénario", "Plan du Scénario"]
    examples := ["Exemples"]
    givenStep := ["* ", "Soit ", "Sachant que ", "Sachant qu'", "Sachant ", "Etant donné que ",
      "Etant donné qu'", "Etant donné ", "Etant donnée ", "Etant donnés ", "Etant données ",
      "Étant donné que ", "Étant donné qu'", "Étant donné ", "Étant donnée ", "Étant donnés ",
      "Étant données "]
    whenStep := ["* ", "Quand ", "Lorsque ", "Lorsqu'"]
    thenStep := ["* ", "Alors ", "Donc "]
    andStep := ["* ", "Et que ", "Et qu'", "Et "]
    butStep := ["* ", "Mais que ", "Mais qu'", "Mais "] }]

end FeatureLines
