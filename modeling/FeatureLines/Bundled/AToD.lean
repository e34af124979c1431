import FeatureLines.Bundled.Language

/-!
# Bundled languages from af to de
-/

namespace FeatureLines

def bundledAToD : List BundledLanguage := [
  { code := "af"
    name := "Afrikaans"
    native := "Afrikaans"
    feature := ["Funksie", "Besigheid Behoefte", "Vermoë"]
    background := ["Agtergrond"]
    rule := ["Rule"]
    scenario := ["Voorbeeld", "Situasie"]
    scenarioOutline := ["Situasie Uiteensetting"]
    examples := ["Voorbeelde"]
    givenStep := ["* ", "Gegewe "]
    whenStep := ["* ", "Wanneer "]
    thenStep := ["* ", "Dan "]
    andStep := ["* ", "En "]
    butStep := ["* ", "Maar "] },
  { code := "am"
    name := "Armenian"
    native := "հայերեն"
    feature := ["Ֆունկցիոնալություն", "Հատկություն"]
    background := ["Կոնտեքստ"]
    rule := ["Rule"]
    scenario := ["Օրինակ", "Սցենար"]
    scenarioOutline := ["Սցենարի կառուցվացքը"]
    examples := ["Օրինակներ"]
    givenStep := ["* ", "Դիցուք ", "Եթե "]
    whenStep := ["* ", "Եթե ", "Երբ "]
    thenStep := ["* ", "Ապա "]
    andStep := ["* ", "Եվ "]
    butStep := ["* ", "Բայց "] },
  { code := "an"
    name := "Aragonese"
    native := "Aragonés"
    feature := ["Caracteristica"]
    background := ["Antecedents"]
    rule := ["Rule"]
    scenario := ["Eixemplo", "Caso"]
    scenarioOutline := ["Esquema del caso"]
    examples := ["Eixemplos"]
    givenStep := ["* ", "Dau ", "Dada ", "Daus ", "Dadas "]
    whenStep := ["* ", "Cuan "]
    thenStep := ["* ", "Alavez ", "Allora ", "Antonces "]
    andStep := ["* ", "Y ", "E "]
    butStep := ["* ", "Pero "] },
  { code := "ar"
    name := "Arabic"
    native := "العربية"
    feature := ["خاصية"]
    background := ["الخلفية"]
    rule := ["Rule"]
    scenario := ["مثال", "سيناريو"]
    scenarioOutline := ["سيناريو مخطط"]
    examples := ["امثلة"]
    givenStep := ["* ", "بفرض "]
    whenStep := ["* ", "متى ", "عندما "]
    thenStep := ["* ", "اذاً ", "ثم "]
    andStep := ["* ", "و "]
    butStep := ["* ", "لكن "] },
  { code := "ast"
    name := "Asturian"
    native := "asturianu"
    feature := ["Carauterística"]
    background := ["Antecedentes"]
    rule := ["Rule"]
    scenario := ["Exemplo", "Casu"]
    scenarioOutline := ["Esbozu del casu"]
    examples := ["Exemplos"]
    givenStep := ["* ", "Dáu ", "Dada ", "Daos ", "Daes "]
    whenStep := ["* ", "Cuando "]
    thenStep := ["* ", "Entós "]
    andStep := ["* ", "Y ", "Ya "]
    butStep := ["* ", "Peru "] },
  { code := "az"
    name := "Azerbaijani"
    native := "Azərbaycanca"
    feature := ["Özəllik"]
    background := ["Keçmiş", "Kontekst"]
    rule := ["Rule"]
    scenario := ["Nümunə", "Ssenari"]
    scenarioOutline := ["Ssenarinin strukturu"]
    examples := ["Nümunələr"]
    givenStep := ["* ", "Tutaq ki ", "Verilir "]
    whenStep := ["* ", "Əgər ", "Nə vaxt ki "]
    thenStep := ["* ", "O halda "]
    andStep := ["* ", "Və ", "Həm "]
    butStep := ["* ", "Amma ", "Ancaq "] },
  { code := "be"
    name := "Belarusian"
    native := "Беларуская"
    feature := ["Функцыянальнасць", "Фіча"]
    background := ["Кантэкст"]
    rule := ["Правілы"]
    scenario := ["Сцэнарый", "Cцэнар"]
    scenarioOutline := ["Шаблон сцэнарыя", "Узор сцэнара"]
    examples := ["Прыклады"]
    givenStep := ["* ", "Няхай ", "Дадзена "]
    whenStep := ["* ", "Калі "]
    thenStep := ["* ", "Тады "]
    andStep := ["* ", "I ", "Ды ", "Таксама "]
    butStep := ["* ", "Але ", "Інакш "] },
  { code := "bg"
    name := "Bulgarian"
    native := "български"
    feature := ["Функционалност"]
    background := ["Предистория"]
    rule := ["Правило"]
    scenario := ["Пример", "Сценарий"]
    scenarioOutline := ["Рамка на сценарий"]
    examples := ["Примери"]
    givenStep := ["* ", "Дадено "]
    whenStep := ["* ", "Когато "]
    thenStep := ["* ", "То "]
    andStep := ["* ", "И "]
    butStep := ["* ", "Но "] },
  { code := "bm"
    name := "Malay"
    native := "Bahasa Melayu"
    feature := ["Fungsi"]
    background := ["Latar Belakang"]
    rule := ["Rule"]
    scenario := ["Senario", "Situasi", "Keadaan"]
    scenarioOutline := ["Kerangka Senario", "Kerangka Situasi", "Kerangka Keadaan",
      "Garis Panduan Senario"]
    examples := ["Contoh"]
    givenStep := ["* ", "Diberi ", "Bagi "]
    whenStep := ["* ", "Apabila "]
    thenStep := ["* ", "Maka ", "Kemudian "]
    andStep := ["* ", "Dan "]
    butStep := ["* ", "Tetapi ", "Tapi "] },
  { code := "bs"
    name := "Bosnian"
    native := "Bosanski"
    feature := ["Karakteristika"]
    background := ["Pozadina"]
    rule := ["Rule"]
    scenario := ["Primjer", "Scenariju", "Scenario"]
    scenarioOutline := ["Scenariju-obris", "Scenario-outline"]
    examples := ["Primjeri"]
    givenStep := ["* ", "Dato "]
    whenStep := ["* ", "Kada "]
    thenStep := ["* ", "Zatim "]
    andStep := ["* ", "I ", "A "]
    butStep := ["* ", "Ali "] },
  { code := "ca"
    name := "Catalan"
    native := "català"
    feature := ["Característica", "Funcionalitat"]
    background := ["Rerefons", "Antecedents"]
    rule := ["Rule"]
    scenario := ["Exemple", "Escenari"]
    scenarioOutline := ["Esquema de l'escenari"]
    examples := ["Exemples"]
    givenStep := ["* ", "Donat ", "Donada ", "Atès ", "Atesa "]
    whenStep := ["* ", "Quan "]
    thenStep := ["* ", "Aleshores ", "Cal "]
    andStep := ["* ", "I "]
    butStep := ["* ", "Però "] },
  { code := "cs"
    name := "Czech"
    native := "Česky"
    feature := ["Požadavek"]
    background := ["Pozadí", "Kontext"]
    rule := ["Pravidlo"]
    scenario := ["Příklad", "Scénář"]
    scenarioOutline := ["Náčrt Scénáře", "Osnova scénáře"]
    examples := ["Příklady"]
    givenStep := ["* ", "Pokud ", "Za předpokladu "]
    whenStep := ["* ", "Když "]
    thenStep := ["* ", "Pak "]
    andStep := ["* ", "A také ", "A "]
    butStep := ["* ", "Ale "] },
  { code := "cy-GB"
    name := "Welsh"
    native := "Cymraeg"
    feature := ["Arwedd"]
    background := ["Cefndir"]
    rule := ["Rule"]
    scenario := ["Enghraifft", "Scenario"]
    scenarioOutline := ["Scenario Amlinellol"]
    examples := ["Enghreifftiau"]
    givenStep := ["* ", "Anrhegedig a "]
    whenStep := ["* ", "Pryd "]
    thenStep := ["* ", "Yna "]
    andStep := ["* ", "A "]
    butStep := ["* ", "Ond "] },
  { code := "da"
    name := "Danish"
    native := "dansk"
    feature := ["Egenskab"]
    background := ["Baggrund"]
    rule := ["Regel"]
    scenario := ["Eksempel", "Scenarie"]
    scenarioOutline := ["Abstrakt Scenario"]
    examples := ["Eksempler"]
    givenStep := ["* ", "Givet "]
    whenStep := ["* ", "Når "]
    thenStep := ["* ", "Så "]
    andStep := ["* ", "Og "]
    butStep := ["* ", "Men "] },
  { code := "de"
    name := "German"
    native := "Deutsch"
    feature := ["Funktionalität", "Funktion"]
    background := ["Grundlage", "Hintergrund", "Voraussetzungen", "Vorbedingungen"]
    rule := ["Rule", "Regel"]
    scenario := ["Beispiel", "Szenario"]
    scenarioOutline := ["Szenariogrundriss", "Szenarien"]
    examples := ["Beispiele"]
    givenStep := ["* ", "Angenommen ", "Gegeben sei ", "Gegeben seien "]
    whenStep := ["* ", "Wenn "]
    thenStep := ["* ", "Dann "]
    andStep := ["* ", "Und "]
    butStep := ["* ", "Aber "] }]

end FeatureLines
